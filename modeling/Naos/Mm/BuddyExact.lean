/-
The split and merge loops of the buddy allocator list by list, and the decomposition of a seeded region.

`buddy_alloc_order_locked` pops the head `P` of the first non-empty list of order `o ≥ k` and splits it down to
`k`, pushing the upper half `P + 2^j` on the list of each order `j` in `[k, o)`. `buddy_free_order_locked` of
`(P, k)` finds those halves again as the buddies `P ^^^ 2^j` of the pending block, takes each off its list and keeps
`P` as the head; at `o` it stops, since the buddy of a listed block is never listed (the lists are coalesced). It
then pushes `P` back on the list of order `o`, where it was the head, so every list is as it was.

`add_memory_region` frees the region in blocks: at each frame the largest block that is aligned there and fits in
what is left. Those blocks tile the region, the loop is the fold of one free over them, and `managed_pages` grows by
the region's size. The C code rounds `start` up in 64 bits: for a `start` within a page of `2^64` the rounding wraps
to 0, the region becomes `[PAGE_SIZE, end)`, and frames already free are freed a second time.

Results:
- `buddy_alloc_free_roundtrip`: freeing the block just allocated, with its order, restores every list;
- `add_memory_region_tiles`: what `add_memory_region` does to the free frames and `managed_pages`;
- `add_memory_region_wraps`: a region just below `2^64` seeds the zone again.
-/
import Naos.Mm.BuddyChecks

namespace Naos.Buddy

open LinkedStore AlignedBlock BuddyState

/-! ## Allocation, list by list -/

/-- the search hands back the block it popped, the head of the list it found -/
theorem buddyAllocSearch_pop {s : BuddyState} :
    ∀ (fuel order : Nat) {o pfn : Nat} {t : BuddyState},
      buddyAllocSearch s order fuel = some (o, pfn, t) → freeAreaPop s o = some (pfn, t)
  | 0, _, _, _, _, h => absurd h (by simp [buddyAllocSearch])
  | fuel + 1, order, o, pfn, t, h => by
    rw [buddyAllocSearch] at h
    split_ifs at h with hord
    · rcases hpop : freeAreaPop s order with _ | ⟨p, u⟩
      · rw [hpop] at h
        exact buddyAllocSearch_pop fuel (order + 1) h
      · rw [hpop] at h
        simp only [Option.some.injEq, Prod.mk.injEq] at h
        obtain ⟨rfl, rfl, rfl⟩ := h
        exact hpop

/-- the page popped is the first of its list -/
theorem freeList_eq_cons_of_pop {s t : BuddyState} {k x : Nat} (hok : ListsOk s) (hk : k < MAX_ORDER)
    (h : freeAreaPop s k = some (x, t)) : freeList s k = x :: (freeList s k).erase x := by
  obtain ⟨hhead, hx, -⟩ := (freeAreaPop_eq_some).mp h
  have hl := (hok.area_dseg k hk).linked
  rw [hhead] at hl
  generalize freeList s k = l at hl ⊢
  cases l with
  | nil => exact absurd (hl.eq_nil_iff.mp rfl) hx
  | cons y ys =>
    obtain ⟨rfl, -, -⟩ := hl.cons_inv
    rw [List.erase_cons_head]

/-- the split loop from `order` down to `k` pushes the upper half of each order in `[k, order)` on its list -/
theorem buddyAllocSplit_lists {pfn k : Nat} {owned : List (Nat × Nat)} :
    ∀ (order : Nat) (s : BuddyState), Inv s → OwnedOk s ((pfn, order) :: owned) → k ≤ order →
      (∀ j < MAX_ORDER, freeList (buddyAllocSplit s pfn k order) j =
        if k ≤ j ∧ j < order then (pfn + 2 ^ j) :: freeList s j else freeList s j) ∧
      ∀ c < MAX_CPU_NUM, pcpList (buddyAllocSplit s pfn k order) c = pcpList s c
  | 0, s, _, _, _ => ⟨fun j _ => by rw [if_neg (by omega)]; rfl, fun _ _ => rfl⟩
  | order + 1, s, hinv, hown, hk => by
    rw [buddyAllocSplit]
    split_ifs with hgt
    · obtain ⟨hstep, hlists, hpcp⟩ := splitStep_spec hinv hown
      rw [orderToPages_eq]
      obtain ⟨hl, hp⟩ := buddyAllocSplit_lists order _ hstep.inv hstep.own (Nat.lt_succ_iff.mp hgt)
      refine ⟨fun j hj => ?_, fun c hc => by rw [hp c hc, hpcp c hc]⟩
      rw [hl j hj, hlists j hj]
      by_cases hjo : j = order
      · subst hjo
        rw [if_neg (by omega), if_pos rfl, if_pos ⟨by omega, by omega⟩]
      · rw [if_neg hjo]
        by_cases hin : k ≤ j ∧ j < order
        · rw [if_pos hin, if_pos ⟨hin.1, by omega⟩]
        · rw [if_neg hin, if_neg (by omega)]
    · obtain rfl : k = order + 1 := by omega
      exact ⟨fun j _ => by rw [if_neg (by omega)], fun _ _ => rfl⟩

/-- what a successful `buddy_alloc_order_locked` leaves: the block `(P, k)` owned, carved out of the head `P` of the
list of order `o`, with the halves of orders `[k, o)` pushed on their lists -/
structure Carved (s t : BuddyState) (P k o : Nat) : Prop where
  order_le : k ≤ o
  order_lt : o < MAX_ORDER
  head : freeList s o = P :: (freeList s o).erase P
  aligned : 2 ^ o ∣ P
  uncoalesced : o + 1 < MAX_ORDER → P ^^^ 2 ^ o ∉ freeList s o
  inv : Inv t
  own : OwnedOk t [(P, k)]
  lists : ∀ j < MAX_ORDER, freeList t j =
    if k ≤ j ∧ j < o then (P + 2 ^ j) :: freeList s j else if j = o then (freeList s o).erase P else freeList s j
  pcp : ∀ c < MAX_CPU_NUM, pcpList t c = pcpList s c

theorem buddyAllocOrderLocked_carved {s t : BuddyState} (hinv : Inv s) {k addr : Nat}
    (halloc : buddyAllocOrderLocked s k = (addr, t)) (hblock : addr ≠ 0) :
    ∃ P o, addr = pfnToPhys P ∧ Carved s t P k o := by
  unfold buddyAllocOrderLocked at halloc
  rcases hsearch : buddyAllocSearch s k (MAX_ORDER - k) with _ | ⟨o, P, s₁⟩
  · rw [hsearch] at halloc
    exact absurd (Prod.mk.inj halloc).1.symm hblock
  rw [hsearch] at halloc
  obtain ⟨rfl, rfl⟩ := Prod.mk.inj halloc
  obtain ⟨hle, ho, hmem, rfl⟩ := (buddyAllocSearch_spec hinv _ k (by omega)).2 o P s₁ hsearch
  have htake := conserves_freeAreaDel hinv (ownedOk_nil hinv) ho hmem
  obtain ⟨hsplitL, hsplitP⟩ := buddyAllocSplit_lists o _ htake.inv htake.own hle
  have hsplit := (buddyAllocSplit_spec o _ htake.inv htake.own hle).1
  have hpfn : P ∉ nodes (buddyAllocSplit (freeAreaDel s o P) P k o) :=
    hsplit.own.not_mem_nodes List.mem_cons_self (mem_self (P, k))
  have hagree := linksAgree_setPage (pageMarkAllocated · k) hpfn
  have hmark := hsplit.trans (conserves_setPage_owned (pageMarkAllocated · k) hsplit.inv hsplit.own
    List.mem_cons_self (mem_self (P, k)) BitVec.zero_and)
  refine ⟨P, o, rfl, hle, ho, freeList_eq_cons_of_pop hinv.lists ho (buddyAllocSearch_pop _ _ hsearch),
    (hinv.blocks _ (mem_freeBlocks_of_freeList ho hmem)).aligned, fun hco => hinv.coalesced o hco P hmem,
    hmark.inv, hmark.own, fun j hj => ?_, fun c hc => ?_⟩
  · rw [hagree.freeList_eq hsplit.inv.lists hj, hsplitL j hj, freeList_freeAreaDel hinv ho hmem hj]
    by_cases hin : k ≤ j ∧ j < o
    · rw [if_pos hin, if_pos hin, if_neg (by omega)]
    · rw [if_neg hin, if_neg hin]
  · rw [hagree.pcpList_eq hsplit.inv.lists hc, hsplitP c hc, pcpList_freeAreaDel hinv.lists ho hmem hc]

/-! ## Freeing, list by list -/

/-- on a block aligned above order `j`, the buddy of order `j` is the upper half -/
theorem xor_two_pow_of_dvd_succ' {P j : Nat} (h : 2 ^ (j + 1) ∣ P) : P ^^^ 2 ^ j = P + 2 ^ j := by
  conv_lhs => rw [← xor_two_pow_of_dvd_succ h]
  exact xor_two_pow_xor_two_pow _ _

/-- the merge loop from `(P, j)`, with the upper halves of the orders `[j, o)` on their lists, takes each of them off
and stops at `o`, keeping `P` as the head. Induction on the orders left -/
theorem buddyFreeMerge_halves {P o : Nat} (hal : 2 ^ o ∣ P) (ho : o < MAX_ORDER) :
    ∀ (n : Nat) (u : BuddyState) (j fuel : Nat), j + n = o → n < fuel → Inv u →
      (∀ i, j ≤ i → i < o → P + 2 ^ i ∈ freeList u i) → (o + 1 < MAX_ORDER → P ^^^ 2 ^ o ∉ freeList u o) →
      (buddyFreeMerge u P j fuel).2 = (P, o) ∧
      (∀ i < MAX_ORDER, freeList (buddyFreeMerge u P j fuel).1 i =
        if j ≤ i ∧ i < o then (freeList u i).erase (P + 2 ^ i) else freeList u i) ∧
      ∀ c < MAX_CPU_NUM, pcpList (buddyFreeMerge u P j fuel).1 c = pcpList u c := by
  intro n
  induction n with
  | zero =>
    intro u j fuel hj hfuel hinv _ hco
    obtain rfl : j = o := by omega
    obtain ⟨fuel, rfl⟩ : ∃ f, fuel = f + 1 := ⟨fuel - 1, by omega⟩
    have hstop : ((u, P, j) : BuddyState × Nat × Nat).2 = (P, j) ∧
        (∀ i < MAX_ORDER, freeList u i = if j ≤ i ∧ i < j then (freeList u i).erase (P + 2 ^ i) else freeList u i) ∧
        ∀ c < MAX_CPU_NUM, pcpList u c = pcpList u c :=
      ⟨rfl, fun i _ => by rw [if_neg (by omega)], fun _ _ => rfl⟩
    rw [buddyFreeMerge, orderToPages_eq]
    dsimp only
    rw [ite_lt_eq_min]
    split_ifs with hk hzone hbuddy
    · exact hstop
    · exact hstop
    · have hm := (hinv.pageIsBuddy_iff (Nat.lt_of_succ_lt hk)).mp (by simpa using hbuddy)
      exact absurd hm (hco hk)
    · exact hstop
  | succ n ih =>
    intro u j fuel hj hfuel hinv hhalves hco
    obtain ⟨fuel, rfl⟩ : ∃ f, fuel = f + 1 := ⟨fuel - 1, by omega⟩
    have hjo : j < o := by omega
    have hxor : P ^^^ 2 ^ j = P + 2 ^ j :=
      xor_two_pow_of_dvd_succ' ((Nat.pow_dvd_pow 2 (by omega : j + 1 ≤ o)).trans hal)
    have hjm : j < MAX_ORDER := by omega
    have hy := hhalves j le_rfl hjo
    have hb := hinv.blocks _ (mem_freeBlocks_of_freeList hjm hy)
    rw [buddyFreeMerge, orderToPages_eq]
    dsimp only
    rw [ite_lt_eq_min, hxor, min_eq_left (Nat.le_add_right _ _)]
    rw [if_pos (by omega), Inv.zoneContainsPfn_of_blockOk hb, hinv.zoneBlockValid_of_blockOk hb,
      (hinv.pageIsBuddy_iff hjm).mpr hy]
    rw [if_neg (by decide), if_neg (by decide)]
    have hinv₁ := inv_freeAreaDel hinv hjm hy
    have hlist₁ := fun i (hi : i < MAX_ORDER) => freeList_freeAreaDel hinv hjm hy hi
    obtain ⟨hres, hl, hp⟩ := ih (freeAreaDel u j (P + 2 ^ j)) (j + 1) fuel (by omega) (by omega) hinv₁
      (fun i hi₁ hi₂ => by rw [hlist₁ i (by omega), if_neg (by omega)]; exact hhalves i (by omega) hi₂)
      (fun hk => by rw [hlist₁ o ho, if_neg (by omega)]; exact hco hk)
    refine ⟨hres, fun i hi => ?_, fun c hc => by rw [hp c hc, pcpList_freeAreaDel hinv.lists hjm hy hc]⟩
    rw [hl i hi, hlist₁ i hi]
    by_cases hij : i = j
    · subst hij
      rw [if_neg (by omega), if_pos rfl, if_pos ⟨le_rfl, hjo⟩]
    · rw [if_neg hij]
      by_cases hin : j + 1 ≤ i ∧ i < o
      · rw [if_pos hin, if_pos ⟨by omega, hin.2⟩]
      · rw [if_neg hin, if_neg (by omega)]

/-- freeing `(P, k)` after the carve: the halves come off their lists and `P` goes back on the list of order `o` -/
theorem buddyFreeOrderLocked_carved {s t : BuddyState} {P k o : Nat} (hc : Carved s t P k o) :
    (∀ j < MAX_ORDER, freeList (buddyFreeOrderLocked t (pfnToPhys P) k).2 j = freeList s j) ∧
      ∀ c < MAX_CPU_NUM, pcpList (buddyFreeOrderLocked t (pfnToPhys P) k).2 c = pcpList s c := by
  unfold buddyFreeOrderLocked
  rw [physToPfn_pfnToPhys]
  obtain ⟨hres, hl, hp⟩ := buddyFreeMerge_halves hc.aligned hc.order_lt (o - k) t k MAX_ORDER (by have := hc.order_le; omega)
    (by have := hc.order_lt; omega) hc.inv
    (fun i hi₁ hi₂ => by rw [hc.lists i (by have := hc.order_lt; omega), if_pos ⟨hi₁, hi₂⟩]; exact List.mem_cons_self)
    (fun hk hm => by
      rw [hc.lists o hc.order_lt, if_neg (by omega), if_pos rfl] at hm
      exact hc.uncoalesced hk (List.mem_of_mem_erase hm))
  rcases hm : buddyFreeMerge t P k MAX_ORDER with ⟨t₁, p, o'⟩
  rw [hm] at hres hl hp
  obtain ⟨rfl, rfl⟩ := Prod.mk.inj hres
  obtain ⟨hmi, -⟩ := buddyFreeMerge_spec MAX_ORDER t p k (MergeInv.start hc.inv hc.own) (by omega) t₁ p o' hm
  have hinv₁ := hmi.conserves.inv
  have hown₁ := hmi.conserves.own
  refine ⟨fun j hj => ?_, fun c hc' => ?_⟩
  · rw [freeList_freeAreaAdd hinv₁ hown₁ hj]
    by_cases hjo : j = o'
    · subst hjo
      rw [if_pos rfl, hl j hj, if_neg (by omega), hc.lists j hj, if_neg (by omega), if_pos rfl, ← hc.head]
    · rw [if_neg hjo, hl j hj, hc.lists j hj]
      by_cases hin : k ≤ j ∧ j < o'
      · rw [if_pos hin, if_pos hin, List.erase_cons_head]
      · rw [if_neg hin, if_neg hin, if_neg hjo]
  · rw [pcpList_freeAreaAdd hinv₁.lists (order_lt_of_owned hown₁) (ne_none_of_owned hinv₁ hown₁)
      (not_mem_nodes_of_owned hown₁) hc', hp c hc', hc.pcp c hc']

theorem freeBlocks_eq_of_lists {s t : BuddyState} (hf : ∀ j < MAX_ORDER, freeList t j = freeList s j)
    (hp : ∀ c < MAX_CPU_NUM, pcpList t c = pcpList s c) : freeBlocks t = freeBlocks s := by
  unfold freeBlocks
  congr 1
  · apply flatMap_range_congr
    intro j hj
    rw [hf j hj]
  · apply flatMap_range_congr
    intro c hc
    rw [hp c hc]

/-- from any state with the representation invariant, freeing the block `buddy_alloc_order_locked` just returned,
with the order it was asked for, puts every list back as it was, and so the free blocks -/
theorem buddy_alloc_free_roundtrip {s t : BuddyState} (hinv : Inv s) {k addr : Nat}
    (halloc : buddyAllocOrderLocked s k = (addr, t)) (hblock : addr ≠ 0) :
    (∀ j < MAX_ORDER, freeList (buddyFreeOrderLocked t addr k).2 j = freeList s j) ∧
      freeBlocks (buddyFreeOrderLocked t addr k).2 = freeBlocks s := by
  obtain ⟨P, o, rfl, hc⟩ := buddyAllocOrderLocked_carved hinv halloc hblock
  obtain ⟨hf, hp⟩ := buddyFreeOrderLocked_carved hc
  exact ⟨hf, freeBlocks_eq_of_lists hf hp⟩

/-- `[2, 64)` seeded into a zone of 64 frames: the lists hold the blocks at 2 (order 1), 4, 8, 16 and 32 -/
def seededFromTwo : BuddyState :=
  (grun (buddyInit (64 * PAGE_SIZE) 1 (fun _ => true) 64, []) [.addMemoryRegion (2 * PAGE_SIZE) (64 * PAGE_SIZE)]).1

theorem inv_seededFromTwo : Inv seededFromTwo := by
  have hallowed : RunAllowed (buddyInit (64 * PAGE_SIZE) 1 (fun _ => true) 64, [])
      [.addMemoryRegion (2 * PAGE_SIZE) (64 * PAGE_SIZE)] :=
    ⟨fun q _ _ => by simp [freeSet_buddyInit, cover], trivial⟩
  exact (buddy_run_invariant _ _ _ _ (by decide) _ hallowed).1

/-- an order-0 allocation there splits the block at 2, and freeing frame 2 merges it back -/
theorem buddy_alloc_free_roundtrip_seeded :
    Inv seededFromTwo ∧ (buddyAllocOrderLocked seededFromTwo 0).1 ≠ 0 ∧
      (∀ j < MAX_ORDER, freeList (buddyFreeOrderLocked (buddyAllocOrderLocked seededFromTwo 0).2
        (buddyAllocOrderLocked seededFromTwo 0).1 0).2 j = freeList seededFromTwo j) ∧
      freeBlocks (buddyFreeOrderLocked (buddyAllocOrderLocked seededFromTwo 0).2
        (buddyAllocOrderLocked seededFromTwo 0).1 0).2 = freeBlocks seededFromTwo := by
  have hne : (buddyAllocOrderLocked seededFromTwo 0).1 ≠ 0 := by decide
  exact ⟨inv_seededFromTwo, hne, buddy_alloc_free_roundtrip inv_seededFromTwo rfl hne⟩

/-! ## Seeding, block by block -/

/-- the first frame `add_memory_region` seeds: `start` rounded up, kept off frame 0 and clipped to the zone -/
def seedFirst (s : BuddyState) (start : Nat) : Nat :=
  physToPfn (max (max (PADDING_UP start PAGE_SIZE) PAGE_SIZE) (zonePhysStart s.zone))

/-- the frame past the last one `add_memory_region` seeds: `end` rounded down and clipped to the zone -/
def seedLast (s : BuddyState) (endAddr : Nat) : Nat :=
  physToPfn (min (PADDING_DOWN endAddr PAGE_SIZE) (zonePhysEnd s.zone))

/-- when `start + PAGE_SIZE - 1` does not wrap, `add_memory_region` is the seeding loop over
`[seedFirst, seedLast)`; every early return is a case where that range is empty -/
theorem addMemoryRegion_eq_loop (s : BuddyState) {start endAddr : Nat} (hstart : start + PAGE_SIZE - 1 < 2 ^ 64) :
    addMemoryRegion s start endAddr =
      addMemoryLoop s (seedFirst s start) (seedLast s endAddr) (seedLast s endAddr - seedFirst s start) := by
  have hup : start ≤ PADDING_UP start PAGE_SIZE := by
    unfold PADDING_UP PADDING_DOWN
    rw [Nat.mod_eq_of_lt hstart]
    unfold PAGE_SIZE at hstart ⊢
    omega
  have hmul : PADDING_UP start PAGE_SIZE % PAGE_SIZE = 0 := Nat.mul_mod_left _ _
  have hdown : PADDING_DOWN endAddr PAGE_SIZE ≤ endAddr := Nat.div_mul_le_self _ _
  have hS₂ : (if PADDING_UP start PAGE_SIZE = 0 then PAGE_SIZE else PADDING_UP start PAGE_SIZE) =
      max (PADDING_UP start PAGE_SIZE) PAGE_SIZE := by
    split_ifs with h0
    · rw [h0, Nat.zero_max]
    · unfold PAGE_SIZE at hmul h0 ⊢
      omega
  have hS₃ : ∀ x, (if x < zonePhysStart s.zone then zonePhysStart s.zone else x) = max x (zonePhysStart s.zone) :=
    fun x => by split_ifs <;> omega
  have hE₃ : (if PADDING_DOWN endAddr PAGE_SIZE > zonePhysEnd s.zone then zonePhysEnd s.zone
      else PADDING_DOWN endAddr PAGE_SIZE) = min (PADDING_DOWN endAddr PAGE_SIZE) (zonePhysEnd s.zone) := by
    split_ifs <;> omega
  have hnoop (h : min (PADDING_DOWN endAddr PAGE_SIZE) (zonePhysEnd s.zone) ≤
      max (max (PADDING_UP start PAGE_SIZE) PAGE_SIZE) (zonePhysStart s.zone)) :
      s = addMemoryLoop s (seedFirst s start) (seedLast s endAddr) (seedLast s endAddr - seedFirst s start) := by
    have hle : seedLast s endAddr ≤ seedFirst s start := Nat.div_le_div_right h
    rw [Nat.sub_eq_zero_of_le hle]
    rfl
  unfold addMemoryRegion
  dsimp only
  rw [hS₂, hS₃, hE₃]
  split_ifs with h₁ h₂ h₃
  · exact hnoop (by omega)
  · exact hnoop (by omega)
  · exact hnoop (by omega)
  · rfl

/-- `add_memory_region`, from any state with the invariant and for a `start` whose rounding up does not wrap, on a
region whose whole pages are not free: it frees aligned blocks that tile `[seedFirst, seedLast)`, one after the
other, counts their pages in `managed_pages`, keeps the invariant, and makes exactly those frames free -/
theorem add_memory_region_tiles {s : BuddyState} (hinv : Inv s) {start endAddr : Nat}
    (hstart : start + PAGE_SIZE - 1 < 2 ^ 64)
    (hfresh : ∀ q, start ≤ q * PAGE_SIZE → (q + 1) * PAGE_SIZE ≤ endAddr → q ∉ freeSet s) :
    ∃ blocks : List (Nat × Nat),
      (∀ b ∈ blocks, b.2 < MAX_ORDER ∧ 2 ^ b.2 ∣ b.1) ∧ blocks.Pairwise Disjoint ∧
      cover blocks = Set.Ico (seedFirst s start) (seedLast s endAddr) ∧
      addMemoryRegion s start endAddr = blocks.foldl seedStep s ∧
      (addMemoryRegion s start endAddr).zone.managedPages =
        s.zone.managedPages + (seedLast s endAddr - seedFirst s start) ∧
      Inv (addMemoryRegion s start endAddr) ∧
      freeSet (addMemoryRegion s start endAddr) = Set.Ico (seedFirst s start) (seedLast s endAddr) ∪ freeSet s := by
  obtain ⟨hin, hdisj, hcover, hpages⟩ :=
    seedBlocks_tile (seedLast s endAddr - seedFirst s start) (seedFirst s start) (seedLast s endAddr) le_rfl
  have hloop : addMemoryRegion s start endAddr = _ := addMemoryRegion_eq_loop s hstart
  rw [addMemoryLoop_eq_foldl] at hloop
  have hfirst : 1 ≤ seedFirst s start ∧ s.zone.zoneStartPfn ≤ seedFirst s start ∧
      start ≤ seedFirst s start * PAGE_SIZE := by
    have hup : start ≤ PADDING_UP start PAGE_SIZE := by
      unfold PADDING_UP PADDING_DOWN
      rw [Nat.mod_eq_of_lt hstart]
      unfold PAGE_SIZE at hstart ⊢
      omega
    have hmul : PADDING_UP start PAGE_SIZE % PAGE_SIZE = 0 := Nat.mul_mod_left _ _
    unfold seedFirst physToPfn zonePhysStart
    unfold PAGE_SIZE at hup hmul ⊢
    omega
  have hlast : seedLast s endAddr ≤ s.zone.zoneEndPfn ∧ seedLast s endAddr * PAGE_SIZE ≤ endAddr := by
    have hdown : PADDING_DOWN endAddr PAGE_SIZE ≤ endAddr := Nat.div_mul_le_self _ _
    unfold seedLast physToPfn zonePhysEnd
    unfold PAGE_SIZE at hdown ⊢
    omega
  obtain ⟨hinv', -, -, hset, hman⟩ := seedStep_foldl _ s hinv (ownedOk_nil hinv)
    (fun b hb => by
      obtain ⟨h₁, h₂, h₃, h₄⟩ := hin b hb
      exact ⟨h₁, h₂, by omega, by omega, by omega⟩)
    hdisj (fun q hq => by
      rw [hcover, Set.mem_Ico] at hq
      rw [Set.mem_union, not_or]
      refine ⟨hfresh q ?_ ?_, fun ⟨c, hc, _⟩ => absurd hc List.not_mem_nil⟩
      · have := Nat.mul_le_mul_right PAGE_SIZE hq.1
        omega
      · have := Nat.mul_le_mul_right PAGE_SIZE (by omega : q + 1 ≤ seedLast s endAddr)
        omega)
  refine ⟨_, fun b hb => ⟨(hin b hb).1, (hin b hb).2.1⟩, hdisj, hcover, hloop, ?_, ?_, ?_⟩
  · rw [hloop, hman, hpages]
  · rw [hloop]
    exact hinv'
  · rw [hloop, hset, hcover]

/-- seeding `[PAGE_SIZE, 64 * PAGE_SIZE)` into the zone `buddy_init` makes of 64 frames: frames 1 to 63 become free
and are counted -/
theorem add_memory_region_tiles_init :
    Inv (buddyInit (64 * PAGE_SIZE) 1 (fun _ => true) 64) ∧ PAGE_SIZE + PAGE_SIZE - 1 < 2 ^ 64 ∧
      (addMemoryRegion (buddyInit (64 * PAGE_SIZE) 1 (fun _ => true) 64) PAGE_SIZE (64 * PAGE_SIZE)).zone.managedPages
        = 63 ∧
      Inv (addMemoryRegion (buddyInit (64 * PAGE_SIZE) 1 (fun _ => true) 64) PAGE_SIZE (64 * PAGE_SIZE)) ∧
      freeSet (addMemoryRegion (buddyInit (64 * PAGE_SIZE) 1 (fun _ => true) 64) PAGE_SIZE (64 * PAGE_SIZE)) =
        Set.Ico 1 64 := by
  have hinv := inv_buddyInit (64 * PAGE_SIZE) 1 (fun _ => true) 64 (by decide)
  have hstart : PAGE_SIZE + PAGE_SIZE - 1 < 2 ^ 64 := by decide
  obtain ⟨_, -, -, -, -, hman, hinv', hset⟩ := add_memory_region_tiles hinv hstart
    (fun q _ _ => by rw [freeSet_buddyInit]; exact Set.notMem_empty q)
  have hfirst : seedFirst (buddyInit (64 * PAGE_SIZE) 1 (fun _ => true) 64) PAGE_SIZE = 1 := by decide
  have hlast : seedLast (buddyInit (64 * PAGE_SIZE) 1 (fun _ => true) 64) (64 * PAGE_SIZE) = 64 := by decide
  rw [hfirst, hlast, freeSet_buddyInit, Set.union_empty] at hset
  rw [hfirst, hlast] at hman
  exact ⟨hinv, hstart, hman, hinv', hset⟩

/-- a `start` within a page of `2^64` rounds up to 0, so the region becomes `[PAGE_SIZE, end)` clipped to the zone:
seeding `[2^64 - 2, 2^64 - 1)`, which holds no whole page, frees the zone's free blocks a second time and each of
them is then twice on its list -/
theorem add_memory_region_wraps :
    Inv seededFromTwo ∧
      (∀ q, 2 ^ 64 - 2 ≤ q * PAGE_SIZE → (q + 1) * PAGE_SIZE ≤ 2 ^ 64 - 1 → q ∉ freeSet seededFromTwo) ∧
      freeList (addMemoryRegion seededFromTwo (2 ^ 64 - 2) (2 ^ 64 - 1)) 1 = [2, 2] ∧
      ¬ Inv (addMemoryRegion seededFromTwo (2 ^ 64 - 2) (2 ^ 64 - 1)) := by
  have hlist : freeList (addMemoryRegion seededFromTwo (2 ^ 64 - 2) (2 ^ 64 - 1)) 1 = [2, 2] := by decide
  refine ⟨inv_seededFromTwo, fun q h₁ h₂ => absurd h₂ (by unfold PAGE_SIZE at h₁ ⊢; omega), hlist, fun h => ?_⟩
  have hnd := (h.lists.area_dseg 1 (by decide)).linked.nodup
  rw [hlist] at hnd
  exact absurd hnd (by decide)

end Naos.Buddy
