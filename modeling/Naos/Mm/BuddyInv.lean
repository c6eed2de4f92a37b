/-
The representation invariant of the buddy allocator, and the ownership discipline its operations follow.

`Inv s` is the representation invariant: the lists are well formed (`ListsOk`); a page on the order-`k` list is
marked `PAGE_FLAG_BUDDY` with order `k`, and a page marked `PAGE_FLAG_BUDDY` is on the list of its order; a page on
a per-CPU list is marked `PAGE_FLAG_PCP`; every free block is an aligned block of the zone that does not start at
frame 0; the free blocks are pairwise disjoint; no two blocks of one list below the top order are buddies; the zone
fits in memory, which fits in 64 bits. `PcpBounded s`
bounds the per-CPU counters by `PCP_HIGH` between operations.

An operation moves blocks between the lists and their owners. `OwnedOk s owned` says the blocks in `owned` (allocated
blocks, and blocks an operation holds while it works) are valid blocks, pairwise disjoint and disjoint from the free
blocks. `freeSet s` is what the free blocks cover: the abstract allocator state, a set of free frames.

Results, one per primitive, each of the form "keeps `Inv`, moves one block between the lists and `owned`, moves its
frames in or out of `freeSet`, and moves `2 ^ order` pages in `freePages`":
- `inv_freeAreaDel`, `ownedOk_freeAreaDel`: taking a listed block;
- `inv_freeAreaAdd`, `ownedOk_freeAreaAdd`: listing an owned block whose buddy is not on the list;
- `inv_pcpPushLocked`, `inv_pcpPopLocked` and their `ownedOk_` lemmas: the per-CPU lists;
- `inv_setPage`: a write to a page on no list that does not set `PAGE_FLAG_BUDDY`;
- `OwnedOk.merge`, `OwnedOk.split`: two owned buddies are one owned block and back.
-/
import Naos.Mm.BuddyLists

namespace Naos.Buddy

open LinkedStore AlignedBlock BuddyState

/-! ## Blocks of the zone -/

/-- a block the allocator may hold for the zone `[lo, hi)`: of an order below `MAX_ORDER`, aligned to its size,
inside the zone, and not at frame 0 (whose address 0 means failure) -/
structure BlockOk (lo hi : Nat) (b : Nat × Nat) : Prop where
  order_lt : b.2 < MAX_ORDER
  aligned : 2 ^ b.2 ∣ b.1
  lo_le : lo ≤ b.1
  le_hi : b.1 + 2 ^ b.2 ≤ hi
  pos : 0 < b.1

section BlockOk
variable {lo hi b k : Nat}

theorem BlockOk.merge (hb : BlockOk lo hi (b, k)) (hy : BlockOk lo hi (b ^^^ 2 ^ k, k))
    (hk : k + 1 < MAX_ORDER) : BlockOk lo hi (min b (b ^^^ 2 ^ k), k + 1) := by
  obtain ⟨hdvd, hmm⟩ := buddy_min_max hb.aligned
  have hmax : max b (b ^^^ 2 ^ k) + 2 ^ k ≤ hi := max_le_iff.mpr ⟨hb.le_hi, hy.le_hi⟩ |> fun h => by
    rcases le_total b (b ^^^ 2 ^ k) with hle | hle
    · rw [max_eq_right hle]; exact hy.le_hi
    · rw [max_eq_left hle]; exact hb.le_hi
  refine ⟨hk, hdvd, le_min hb.lo_le hy.lo_le, ?_, lt_min hb.pos hy.pos⟩
  dsimp only
  rw [pow_succ, Nat.mul_two, ← Nat.add_assoc, hmm]
  exact hmax

theorem BlockOk.lower (hb : BlockOk lo hi (b, k + 1)) : BlockOk lo hi (b, k) where
  order_lt := Nat.lt_of_succ_lt hb.order_lt
  aligned := (dvd_add_half hb.aligned).1
  lo_le := hb.lo_le
  le_hi := by have := hb.le_hi; simp only [pow_succ] at this ⊢; omega
  pos := hb.pos

theorem BlockOk.upper (hb : BlockOk lo hi (b, k + 1)) : BlockOk lo hi (b + 2 ^ k, k) where
  order_lt := Nat.lt_of_succ_lt hb.order_lt
  aligned := (dvd_add_half hb.aligned).2
  lo_le := Nat.le_add_right_of_le hb.lo_le
  le_hi := by have := hb.le_hi; simp only [pow_succ] at this ⊢; omega
  pos := Nat.add_pos_left hb.pos _

end BlockOk

/-! ## The invariant -/

/-- the representation invariant of the zone's free lists -/
structure Inv (s : BuddyState) : Prop where
  lists : ListsOk s
  listed : ∀ k < MAX_ORDER, ∀ b ∈ freeList s k,
    (s.pageMaps b).flags = PAGE_FLAG_BUDDY ∧ (s.pageMaps b).order = k
  buddy_listed : ∀ q, (s.pageMaps q).flags &&& PAGE_FLAG_BUDDY ≠ 0 →
    (s.pageMaps q).order < MAX_ORDER ∧ q ∈ freeList s (s.pageMaps q).order
  blocks : ∀ b ∈ freeBlocks s, BlockOk s.zone.zoneStartPfn s.zone.zoneEndPfn b
  disjoint : (freeBlocks s).Pairwise Disjoint
  coalesced : ∀ k, k + 1 < MAX_ORDER → ∀ b ∈ freeList s k, b ^^^ 2 ^ k ∉ freeList s k
  pcp_flagged : ∀ c < MAX_CPU_NUM, ∀ p ∈ pcpList s c, (s.pageMaps p).flags = PAGE_FLAG_PCP
  zone_end : s.zone.zoneEndPfn * PAGE_SIZE ≤ s.memorySize
  memory_lt : s.memorySize < 2 ^ 64

/-- the per-CPU counters between operations -/
def PcpBounded (s : BuddyState) : Prop := ∀ c < MAX_CPU_NUM, (s.pcpPages c).count ≤ PCP_HIGH

/-- blocks held outside the lists: valid blocks of the zone, pairwise disjoint and disjoint from the free blocks -/
structure OwnedOk (s : BuddyState) (owned : List (Nat × Nat)) : Prop where
  blocks : ∀ b ∈ owned, BlockOk s.zone.zoneStartPfn s.zone.zoneEndPfn b
  disjoint : (owned ++ freeBlocks s).Pairwise Disjoint

/-- the frames the free blocks cover -/
def freeSet (s : BuddyState) : Set Nat := cover (freeBlocks s)

section Basic
variable {s : BuddyState}

theorem exists_freeBlocks_of_mem_nodes {q : Nat} (hq : q ∈ nodes s) : ∃ k, (q, k) ∈ freeBlocks s := by
  rcases (mem_nodes).mp hq with ⟨k, hk, hqk⟩ | ⟨c, hc, hqc⟩
  · exact ⟨k, (mem_freeBlocks).mpr (.inl ⟨hk, hqk⟩)⟩
  · exact ⟨0, (mem_freeBlocks).mpr (.inr ⟨rfl, c, hc, hqc⟩)⟩

theorem mem_freeBlocks_of_freeList {k b : Nat} (hk : k < MAX_ORDER) (hb : b ∈ freeList s k) :
    (b, k) ∈ freeBlocks s :=
  (mem_freeBlocks).mpr (.inl ⟨hk, hb⟩)

/-- a free frame lies inside the zone -/
theorem Inv.mem_zone_of_mem_freeSet {q : Nat} (hinv : Inv s) (hq : q ∈ freeSet s) :
    s.zone.zoneStartPfn ≤ q ∧ q < s.zone.zoneEndPfn := by
  obtain ⟨b, hb, hqb⟩ := hq
  have hbo := hinv.blocks b hb
  exact ⟨hbo.lo_le.trans hqb.1, Nat.lt_of_lt_of_le hqb.2 hbo.le_hi⟩

/-- a block whose frames are all free lies inside the zone -/
theorem Inv.blockOk_of_subset {lo hi : Nat} {b : Nat × Nat} (hinv : Inv s) (hb : BlockOk lo hi b)
    (hsub : toSet b ⊆ freeSet s) : BlockOk s.zone.zoneStartPfn s.zone.zoneEndPfn b := by
  have hpos := Nat.two_pow_pos b.2
  have hlast : Mem (b.1 + 2 ^ b.2 - 1) b := ⟨by omega, by omega⟩
  have hhi := (hinv.mem_zone_of_mem_freeSet (hsub hlast)).2
  exact ⟨hb.order_lt, hb.aligned, (hinv.mem_zone_of_mem_freeSet (hsub (mem_self b))).1, by omega, hb.pos⟩

/-- a frame of an owned block is on no list -/
theorem OwnedOk.not_mem_nodes {owned : List (Nat × Nat)} (hown : OwnedOk s owned) {b : Nat × Nat} (hb : b ∈ owned)
    {q : Nat} (hq : Mem q b) : q ∉ nodes s := by
  intro hqn
  obtain ⟨k, hk⟩ := exists_freeBlocks_of_mem_nodes hqn
  exact (disjoint_iff_not_mem).mp (hown.disjoint.rel_of_mem_append hb hk) q hq (mem_self (q, k))

/-- a frame of an owned block is not free -/
theorem OwnedOk.not_mem_freeSet {owned : List (Nat × Nat)} (hown : OwnedOk s owned) {b : Nat × Nat}
    (hb : b ∈ owned) {q : Nat} (hq : Mem q b) : q ∉ freeSet s := by
  rintro ⟨c, hc, hqc⟩
  exact (disjoint_iff_not_mem).mp (hown.disjoint.rel_of_mem_append hb hc) q hq hqc

theorem OwnedOk.perm {owned owned' : List (Nat × Nat)} (hown : OwnedOk s owned) (h : owned.Perm owned') :
    OwnedOk s owned' where
  blocks b hb := hown.blocks b (h.mem_iff.mpr hb)
  disjoint := (pairwise_disjoint_perm (h.append_right _)).mp hown.disjoint

theorem OwnedOk.tail {b : Nat × Nat} {owned : List (Nat × Nat)} (hown : OwnedOk s (b :: owned)) :
    OwnedOk s owned where
  blocks c hc := hown.blocks c (List.mem_cons_of_mem _ hc)
  disjoint := (List.pairwise_cons.mp hown.disjoint).2

/-- two owned buddies are one owned block -/
theorem OwnedOk.merge {b k : Nat} {owned : List (Nat × Nat)} (hown : OwnedOk s ((b, k) :: (b ^^^ 2 ^ k, k) :: owned))
    (hk : k + 1 < MAX_ORDER) : OwnedOk s ((min b (b ^^^ 2 ^ k), k + 1) :: owned) where
  blocks c hc := by
    rcases List.mem_cons.mp hc with rfl | hc
    · exact (hown.blocks _ List.mem_cons_self).merge (hown.blocks _ (by simp)) hk
    · exact hown.blocks c (by simp [hc])
  disjoint := pairwise_merge (hown.blocks _ List.mem_cons_self).aligned hown.disjoint

/-- an owned block is its two halves -/
theorem OwnedOk.split {b k : Nat} {owned : List (Nat × Nat)} (hown : OwnedOk s ((b, k + 1) :: owned)) :
    OwnedOk s ((b + 2 ^ k, k) :: (b, k) :: owned) where
  blocks c hc := by
    have hb := hown.blocks _ List.mem_cons_self
    rcases List.mem_cons.mp hc with rfl | hc
    · exact hb.upper
    rcases List.mem_cons.mp hc with rfl | hc
    · exact hb.lower
    · exact hown.blocks c (List.mem_cons_of_mem _ hc)
  disjoint := pairwise_split hown.disjoint

/-- the ownership facts depend on the free blocks and the zone bounds only -/
theorem OwnedOk.congr {t : BuddyState} {owned : List (Nat × Nat)} (hown : OwnedOk s owned)
    (hfree : freeBlocks t = freeBlocks s) (hlo : t.zone.zoneStartPfn = s.zone.zoneStartPfn)
    (hhi : t.zone.zoneEndPfn = s.zone.zoneEndPfn) : OwnedOk t owned where
  blocks b hb := by rw [hlo, hhi]; exact hown.blocks b hb
  disjoint := by rw [hfree]; exact hown.disjoint

theorem ownedOk_nil (hinv : Inv s) : OwnedOk s [] := ⟨fun _ h => absurd h List.not_mem_nil, hinv.disjoint⟩

/-- a page on no buddy list carries no `PAGE_FLAG_BUDDY` -/
theorem Inv.flags_of_not_mem {q : Nat} (hinv : Inv s) (hq : ∀ k < MAX_ORDER, q ∉ freeList s k) :
    (s.pageMaps q).flags &&& PAGE_FLAG_BUDDY = 0 := by
  by_contra h
  obtain ⟨ho, hm⟩ := hinv.buddy_listed q h
  exact hq _ ho hm

theorem not_mem_freeList_of_not_mem_nodes {q : Nat} (hq : q ∉ nodes s) : ∀ k < MAX_ORDER, q ∉ freeList s k :=
  fun _ hk hm => hq (mem_nodes_of_freeList hk hm)

/-- `page_is_buddy` holds exactly for the pages on the list of that order -/
theorem Inv.pageIsBuddy_iff {q k : Nat} (hinv : Inv s) (hk : k < MAX_ORDER) :
    pageIsBuddy (s.pageMaps q) k = true ↔ q ∈ freeList s k := by
  constructor
  · intro h
    simp only [pageIsBuddy, Bool.and_eq_true, bne_iff_ne, ne_eq, beq_iff_eq] at h
    obtain ⟨-, hm⟩ := hinv.buddy_listed q h.1
    rw [h.2] at hm
    exact hm
  · intro h
    obtain ⟨hf, ho⟩ := hinv.listed k hk q h
    simp only [pageIsBuddy, hf, ho, beq_self_eq_true, Bool.and_true, bne_iff_ne]
    decide

/-- frame numbers of the zone are not `PAGE_LIST_NONE` -/
theorem Inv.lt_none {q : Nat} (hinv : Inv s) (hq : q < s.zone.zoneEndPfn) : q < PAGE_LIST_NONE := by
  have h1 := hinv.zone_end
  have h2 := hinv.memory_lt
  simp only [PAGE_SIZE, PAGE_LIST_NONE] at *
  omega

theorem Inv.ne_none_of_blockOk {b : Nat × Nat} (hinv : Inv s)
    (hb : BlockOk s.zone.zoneStartPfn s.zone.zoneEndPfn b) : b.1 ≠ PAGE_LIST_NONE :=
  Nat.ne_of_lt (hinv.lt_none (Nat.lt_of_lt_of_le (Nat.lt_add_of_pos_right (Nat.two_pow_pos _)) hb.le_hi))

end Basic

/-! ## Addresses of blocks -/

theorem physToPfn_pfnToPhys (pfn : Nat) : physToPfn (pfnToPhys pfn) = pfn := by
  simp [physToPfn, pfnToPhys, PAGE_SIZE]

theorem pfnToPhys_ne_zero {pfn : Nat} (h : 0 < pfn) : pfnToPhys pfn ≠ 0 := by
  simp only [pfnToPhys, PAGE_SIZE]
  omega

section Addresses
variable {s : BuddyState}

/-- `phys_to_page` finds every frame of the zone -/
theorem Inv.physToPage_pfnToPhys {q : Nat} (hinv : Inv s) (hq : q < s.zone.zoneEndPfn) :
    physToPage s (pfnToPhys q) = some q := by
  have h1 := hinv.zone_end
  have hle : (q + 1) * PAGE_SIZE ≤ s.zone.zoneEndPfn * PAGE_SIZE := Nat.mul_le_mul_right _ hq
  unfold physToPage
  rw [if_neg]
  · exact congrArg some (physToPfn_pfnToPhys q)
  · simp only [pfnToPhys, PAGE_SIZE, Nat.add_mul] at hle h1 ⊢
    omega

/-- the address of a block of the zone passes `zone_block_valid` -/
theorem Inv.zoneBlockValid_of_blockOk {b k : Nat} (hinv : Inv s)
    (hb : BlockOk s.zone.zoneStartPfn s.zone.zoneEndPfn (b, k)) : zoneBlockValid s.zone (pfnToPhys b) k = true := by
  have h1 := hinv.zone_end
  have h2 := hinv.memory_lt
  have hhi : (b + 2 ^ k) * PAGE_SIZE ≤ s.zone.zoneEndPfn * PAGE_SIZE := Nat.mul_le_mul_right _ hb.le_hi
  have hlo : s.zone.zoneStartPfn * PAGE_SIZE ≤ b * PAGE_SIZE := Nat.mul_le_mul_right _ hb.lo_le
  have hpow : 2 ^ (k + 12) = 2 ^ k * PAGE_SIZE := by rw [pow_add]; rfl
  have hbytes : orderToPages k * PAGE_SIZE = 2 ^ (k + 12) := by rw [orderToPages_eq, hpow]
  have hsum : pfnToPhys b + 2 ^ (k + 12) = (b + 2 ^ k) * PAGE_SIZE := by rw [hpow, pfnToPhys, Nat.add_mul]
  have hend : (pfnToPhys b + orderToPages k * PAGE_SIZE) % 2 ^ 64 = (b + 2 ^ k) * PAGE_SIZE := by
    rw [hbytes, hsum, Nat.mod_eq_of_lt (by omega)]
  have hmask : pfnToPhys b &&& (orderToPages k * PAGE_SIZE - 1) = 0 := by
    rw [hbytes, Nat.and_two_pow_sub_one_eq_mod]
    obtain ⟨m, hm⟩ := hb.aligned
    have hphys : pfnToPhys b = 2 ^ (k + 12) * m := by
      rw [pfnToPhys, hpow, show b = 2 ^ k * m from hm]
      ring
    rw [hphys]
    exact Nat.mul_mod_right _ _
  have hk : orderValid k = true := by simp [orderValid, hb.order_lt]
  have hnlt : ¬ (b + 2 ^ k) * PAGE_SIZE < pfnToPhys b := by
    simp only [pfnToPhys, Nat.add_mul]
    omega
  unfold zoneBlockValid
  simp only [hk, Bool.not_true, Bool.false_eq_true, if_false, hend, hmask, bne_self_eq_false, if_neg hnlt]
  simp [zonePhysStart, zonePhysEnd, pfnToPhys, hlo, hhi]

end Addresses

/-! ## Inv under primitives that keep the buddy lists -/

section SameLists
variable {s t : BuddyState}

/-- a step that keeps every buddy list, and changes the flags or order only of pages on no buddy list and without
setting `PAGE_FLAG_BUDDY`, keeps the page facts of `Inv` -/
theorem Inv.of_sameFreeLists (hinv : Inv s) (hok : ListsOk t)
    (hlists : ∀ j < MAX_ORDER, freeList t j = freeList s j)
    (hpage : ∀ q, ((t.pageMaps q).flags = (s.pageMaps q).flags ∧ (t.pageMaps q).order = (s.pageMaps q).order) ∨
      ((∀ j < MAX_ORDER, q ∉ freeList s j) ∧ (t.pageMaps q).flags &&& PAGE_FLAG_BUDDY = 0))
    (hblocks : ∀ b ∈ freeBlocks t, BlockOk t.zone.zoneStartPfn t.zone.zoneEndPfn b)
    (hdisj : (freeBlocks t).Pairwise Disjoint) (hend : t.zone.zoneEndPfn = s.zone.zoneEndPfn)
    (hmem : t.memorySize = s.memorySize)
    (hpcp : ∀ c < MAX_CPU_NUM, ∀ p ∈ pcpList t c, (t.pageMaps p).flags = PAGE_FLAG_PCP) : Inv t where
  lists := hok
  listed k hk b hb := by
    rw [hlists k hk] at hb
    rcases hpage b with ⟨hf, ho⟩ | ⟨hnot, -⟩
    · rw [hf, ho]
      exact hinv.listed k hk b hb
    · exact absurd hb (hnot k hk)
  buddy_listed q hq := by
    rcases hpage q with ⟨hf, ho⟩ | ⟨-, hz⟩
    · rw [hf] at hq
      rw [ho]
      obtain ⟨hlt, hm⟩ := hinv.buddy_listed q hq
      exact ⟨hlt, (hlists _ hlt).symm ▸ hm⟩
    · exact absurd hz hq
  blocks := hblocks
  disjoint := hdisj
  coalesced k hk b hb := by
    have hk' : k < MAX_ORDER := Nat.lt_of_succ_lt hk
    rw [hlists k hk'] at hb ⊢
    exact hinv.coalesced k hk b hb
  pcp_flagged := hpcp
  zone_end := by rw [hend, hmem]; exact hinv.zone_end
  memory_lt := by rw [hmem]; exact hinv.memory_lt

/-- a write to a page on no list that leaves `PAGE_FLAG_BUDDY` clear -/
theorem inv_setPage {q : Nat} {f : Page → Page} (hinv : Inv s) (hq : q ∉ nodes s)
    (hf : (f (s.pageMaps q)).flags &&& PAGE_FLAG_BUDDY = 0) : Inv (s.setPage q f) := by
  have hagree := linksAgree_setPage f hq
  refine hinv.of_sameFreeLists (hagree.listsOk hinv.lists) (fun j hj => hagree.freeList_eq hinv.lists hj) ?_
    ?_ ?_ rfl rfl ?_
  · intro p
    by_cases hp : p = q
    · subst hp
      exact .inr ⟨not_mem_freeList_of_not_mem_nodes hq, by rw [setPage_pageMaps_self]; exact hf⟩
    · exact .inl (by rw [setPage_pageMaps_ne f hp]; exact ⟨rfl, rfl⟩)
  · rw [hagree.freeBlocks_eq hinv.lists, setPage_zone]
    exact hinv.blocks
  · rw [hagree.freeBlocks_eq hinv.lists]
    exact hinv.disjoint
  · intro c hc p hp
    rw [hagree.pcpList_eq hinv.lists hc] at hp
    have hpq : p ≠ q := by
      rintro rfl
      exact hq (mem_nodes_of_pcpList hc hp)
    rw [setPage_pageMaps_ne f hpq]
    exact hinv.pcp_flagged c hc p hp

theorem freeBlocks_setPage {q : Nat} (f : Page → Page) (hinv : Inv s) (hq : q ∉ nodes s) :
    freeBlocks (s.setPage q f) = freeBlocks s :=
  (linksAgree_setPage f hq).freeBlocks_eq hinv.lists

theorem ownedOk_setPage {q : Nat} {owned : List (Nat × Nat)} (f : Page → Page) (hinv : Inv s) (hq : q ∉ nodes s)
    (hown : OwnedOk s owned) : OwnedOk (s.setPage q f) owned :=
  hown.congr (freeBlocks_setPage f hinv hq) rfl rfl

/-- the counters `add_memory_region` keeps next to the lists -/
theorem Inv.congr (hinv : Inv s) (hp : t.pageMaps = s.pageMaps) (ha : t.zone.freeArea = s.zone.freeArea)
    (hc : t.pcpPages = s.pcpPages) (hlo : t.zone.zoneStartPfn = s.zone.zoneStartPfn)
    (hhi : t.zone.zoneEndPfn = s.zone.zoneEndPfn) (hm : t.memorySize = s.memorySize) : Inv t := by
  have hnext : nextOf t = nextOf s := by funext q; simp only [nextOf, hp]
  have hprev : prevOf t = prevOf s := by funext q; simp only [prevOf, hp]
  have hfree : freeList t = freeList s := by funext k; simp only [freeList, hnext, ha]
  have hpcp : pcpList t = pcpList s := by funext c; simp only [pcpList, hnext, hc]
  have hblocks : freeBlocks t = freeBlocks s := by simp only [freeBlocks, hfree, hpcp]
  have hnodes : nodes t = nodes s := by simp only [nodes, hfree, hpcp]
  obtain ⟨⟨hdseg, hlen, hlinked, hplen, hnodup⟩, hlisted, hbl, hbk, hdj, hco, hpf, hze, hml⟩ := hinv
  refine ⟨⟨?_, ?_, ?_, ?_, ?_⟩, ?_, ?_, ?_, ?_, ?_, ?_, ?_, ?_⟩ <;>
    simp only [hnext, hprev, hfree, hpcp, hblocks, hnodes, ha, hc, hp, hlo, hhi, hm] <;> assumption

end SameLists

/-! ## Taking a block off a buddy list -/

section Take
variable {s : BuddyState} {k x : Nat} (hinv : Inv s) (hk : k < MAX_ORDER) (hx : x ∈ freeList s k)
include hinv hk hx

theorem freeList_freeAreaDel {j : Nat} (hj : j < MAX_ORDER) :
    freeList (freeAreaDel s k x) j = if j = k then (freeList s k).erase x else freeList s j := by
  split_ifs with hjk
  · subst hjk
    exact freeList_freeAreaDel_self hinv.lists hk hx
  · exact freeList_freeAreaDel_ne hinv.lists hk hx hj hjk

theorem inv_freeAreaDel : Inv (freeAreaDel s k x) where
  lists := listsOk_freeAreaDel hinv.lists hk hx
  listed j hj b hb := by
    rw [freeList_freeAreaDel hinv hk hx hj] at hb
    have hb' : b ∈ freeList s j := by
      split_ifs at hb with hjk
      · subst hjk
        exact List.mem_of_mem_erase hb
      · exact hb
    have hbx : b ≠ x := by
      rintro rfl
      split_ifs at hb with hjk
      · subst hjk
        exact (hinv.lists.area_dseg j hj).linked.nodup.not_mem_erase hb
      · exact hjk (freeList_order_unique hinv.lists hj hk hb hx)
    rw [flags_freeAreaDel, order_freeAreaDel, if_neg hbx, if_neg hbx]
    exact hinv.listed j hj b hb'
  buddy_listed q hq := by
    rw [flags_freeAreaDel] at hq
    rw [order_freeAreaDel]
    by_cases hqx : q = x
    · rw [if_pos hqx] at hq
      exact absurd (BitVec.zero_and) hq
    · rw [if_neg hqx] at hq ⊢
      obtain ⟨hlt, hm⟩ := hinv.buddy_listed q hq
      refine ⟨hlt, ?_⟩
      rw [freeList_freeAreaDel hinv hk hx hlt]
      split_ifs with hjk
      · subst hjk
        exact (List.mem_erase_of_ne hqx).mpr hm
      · exact hm
  blocks b hb := by
    rw [zoneStartPfn_freeAreaDel, zoneEndPfn_freeAreaDel]
    exact hinv.blocks b ((freeBlocks_freeAreaDel hinv.lists hk hx).symm.subset (List.mem_cons_of_mem _ hb))
  disjoint := (List.pairwise_cons.mp
    ((pairwise_disjoint_perm (freeBlocks_freeAreaDel hinv.lists hk hx)).mp hinv.disjoint)).2
  coalesced j hj b hb := by
    have hj' : j < MAX_ORDER := Nat.lt_of_succ_lt hj
    rw [freeList_freeAreaDel hinv hk hx hj'] at hb ⊢
    split_ifs at hb ⊢ with hjk
    · subst hjk
      exact fun h => hinv.coalesced j hj b (List.mem_of_mem_erase hb) (List.mem_of_mem_erase h)
    · exact hinv.coalesced j hj b hb
  pcp_flagged c hc p hp := by
    rw [pcpList_freeAreaDel hinv.lists hk hx hc] at hp
    have hpx : p ≠ x := by
      rintro rfl
      exact freeList_not_mem_pcpList hinv.lists hk hc hx hp
    rw [flags_freeAreaDel, if_neg hpx]
    exact hinv.pcp_flagged c hc p hp
  zone_end := by rw [zoneEndPfn_freeAreaDel, memorySize_freeAreaDel]; exact hinv.zone_end
  memory_lt := by rw [memorySize_freeAreaDel]; exact hinv.memory_lt

theorem ownedOk_freeAreaDel {owned : List (Nat × Nat)} (hown : OwnedOk s owned) :
    OwnedOk (freeAreaDel s k x) ((x, k) :: owned) where
  blocks b hb := by
    rw [zoneStartPfn_freeAreaDel, zoneEndPfn_freeAreaDel]
    rcases List.mem_cons.mp hb with rfl | hb
    · exact hinv.blocks _ (mem_freeBlocks_of_freeList hk hx)
    · exact hown.blocks b hb
  disjoint := by
    have hperm : (owned ++ freeBlocks s).Perm ((x, k) :: owned ++ freeBlocks (freeAreaDel s k x)) :=
      ((freeBlocks_freeAreaDel hinv.lists hk hx).append_left owned).trans List.perm_middle
    exact (pairwise_disjoint_perm hperm).mp hown.disjoint

theorem freeSet_freeAreaDel : freeSet s = toSet (x, k) ∪ freeSet (freeAreaDel s k x) := by
  rw [freeSet, cover_eq_of_perm (freeBlocks_freeAreaDel hinv.lists hk hx), cover_cons]
  rfl

theorem freePages_freeAreaDel : freePages s = 2 ^ k + freePages (freeAreaDel s k x) :=
  freePages_perm (freeBlocks_freeAreaDel hinv.lists hk hx)

end Take

/-! ## Putting an owned block on a buddy list -/

section Give
variable {s : BuddyState} {k x : Nat} {owned : List (Nat × Nat)} (hinv : Inv s) (hown : OwnedOk s ((x, k) :: owned))
include hinv hown

omit hinv in
theorem order_lt_of_owned : k < MAX_ORDER := (hown.blocks _ List.mem_cons_self).order_lt

theorem ne_none_of_owned : x ≠ PAGE_LIST_NONE := hinv.ne_none_of_blockOk (hown.blocks _ List.mem_cons_self)

omit hinv in
theorem not_mem_nodes_of_owned : x ∉ nodes s := hown.not_mem_nodes List.mem_cons_self (mem_self (x, k))

theorem freeList_freeAreaAdd {j : Nat} (hj : j < MAX_ORDER) :
    freeList (freeAreaAdd s k x) j = if j = k then x :: freeList s k else freeList s j := by
  have hk := order_lt_of_owned hown
  split_ifs with hjk
  · subst hjk
    exact freeList_freeAreaAdd_self hinv.lists hk (ne_none_of_owned hinv hown) (not_mem_nodes_of_owned hown)
  · exact freeList_freeAreaAdd_ne hinv.lists hk (ne_none_of_owned hinv hown) (not_mem_nodes_of_owned hown)
      hj hjk

theorem freeBlocks_freeAreaAdd_of_owned : (freeBlocks (freeAreaAdd s k x)).Perm ((x, k) :: freeBlocks s) :=
  freeBlocks_freeAreaAdd hinv.lists (order_lt_of_owned hown) (ne_none_of_owned hinv hown)
    (not_mem_nodes_of_owned hown)

/-- the loop of `buddy_free_order_locked` stops only where the buddy is not on the list -/
theorem inv_freeAreaAdd (hco : k + 1 < MAX_ORDER → x ^^^ 2 ^ k ∉ freeList s k) : Inv (freeAreaAdd s k x) := by
  have hk := order_lt_of_owned hown
  have hxn := not_mem_nodes_of_owned hown
  have hxh := ne_headPfn_of_not_mem hinv.lists hk (ne_none_of_owned hinv hown) hxn
  have hxl : ∀ j < MAX_ORDER, ∀ b ∈ freeList s j, b ≠ x := fun j hj b hb h =>
    hxn (h ▸ mem_nodes_of_freeList hj hb)
  have hblocks := freeBlocks_freeAreaAdd_of_owned hinv hown
  refine ⟨listsOk_freeAreaAdd hinv.lists hk (ne_none_of_owned hinv hown) hxn, ?_, ?_, ?_, ?_, ?_, ?_, ?_, ?_⟩
  · intro j hj b hb
    rw [freeList_freeAreaAdd hinv hown hj] at hb
    rw [flags_freeAreaAdd hxh, order_freeAreaAdd hxh]
    split_ifs at hb with hjk
    · subst hjk
      rcases List.mem_cons.mp hb with rfl | hb
      · simp
      · rw [if_neg (hxl j hj b hb), if_neg (hxl j hj b hb)]
        exact hinv.listed j hj b hb
    · rw [if_neg (hxl j hj b hb), if_neg (hxl j hj b hb)]
      exact hinv.listed j hj b hb
  · intro q hq
    rw [flags_freeAreaAdd hxh] at hq
    rw [order_freeAreaAdd hxh]
    by_cases hqx : q = x
    · rw [if_pos hqx]
      refine ⟨hk, ?_⟩
      rw [freeList_freeAreaAdd hinv hown hk, if_pos rfl, hqx]
      exact List.mem_cons_self
    · rw [if_neg hqx] at hq ⊢
      obtain ⟨hlt, hm⟩ := hinv.buddy_listed q hq
      refine ⟨hlt, ?_⟩
      rw [freeList_freeAreaAdd hinv hown hlt]
      split_ifs with hjk
      · subst hjk
        exact List.mem_cons_of_mem _ hm
      · exact hm
  · intro b hb
    rw [zoneStartPfn_freeAreaAdd, zoneEndPfn_freeAreaAdd]
    rcases List.mem_cons.mp (hblocks.subset hb) with rfl | hb
    · exact hown.blocks _ List.mem_cons_self
    · exact hinv.blocks b hb
  · apply (pairwise_disjoint_perm hblocks).mpr
    exact hown.disjoint.sublist (List.Sublist.cons_cons _ (List.sublist_append_right _ _))
  · intro j hj b hb
    have hj' : j < MAX_ORDER := Nat.lt_of_succ_lt hj
    rw [freeList_freeAreaAdd hinv hown hj'] at hb ⊢
    split_ifs at hb ⊢ with hjk
    · subst hjk
      rw [List.mem_cons, not_or]
      rcases List.mem_cons.mp hb with rfl | hb
      · exact ⟨xor_two_pow_ne b j, hco hj⟩
      · refine ⟨fun h => hco hj ?_, hinv.coalesced j hj b hb⟩
        rw [← h, xor_two_pow_xor_two_pow]
        exact hb
    · exact hinv.coalesced j hj b hb
  · intro c hc p hp
    rw [pcpList_freeAreaAdd hinv.lists hk (ne_none_of_owned hinv hown) hxn hc] at hp
    have hpx : p ≠ x := by
      rintro rfl
      exact hxn (mem_nodes_of_pcpList hc hp)
    rw [flags_freeAreaAdd hxh, if_neg hpx]
    exact hinv.pcp_flagged c hc p hp
  · rw [zoneEndPfn_freeAreaAdd, memorySize_freeAreaAdd]
    exact hinv.zone_end
  · rw [memorySize_freeAreaAdd]
    exact hinv.memory_lt

theorem ownedOk_freeAreaAdd : OwnedOk (freeAreaAdd s k x) owned where
  blocks b hb := by
    rw [zoneStartPfn_freeAreaAdd, zoneEndPfn_freeAreaAdd]
    exact hown.blocks b (List.mem_cons_of_mem _ hb)
  disjoint := by
    have hperm : ((x, k) :: owned ++ freeBlocks s).Perm (owned ++ freeBlocks (freeAreaAdd s k x)) :=
      (((freeBlocks_freeAreaAdd_of_owned hinv hown).append_left owned).trans List.perm_middle).symm
    exact (pairwise_disjoint_perm hperm).mp hown.disjoint

theorem freeSet_freeAreaAdd : freeSet (freeAreaAdd s k x) = toSet (x, k) ∪ freeSet s := by
  rw [freeSet, cover_eq_of_perm (freeBlocks_freeAreaAdd_of_owned hinv hown), cover_cons]
  rfl

theorem freePages_freeAreaAdd : freePages (freeAreaAdd s k x) = 2 ^ k + freePages s :=
  freePages_perm (freeBlocks_freeAreaAdd_of_owned hinv hown)

end Give

/-! ## The per-CPU lists -/

section PcpPush
variable {s : BuddyState} {c x : Nat} {owned : List (Nat × Nat)} (hinv : Inv s) (hown : OwnedOk s ((x, 0) :: owned))
  (hc : c < MAX_CPU_NUM) (hcnt : (s.pcpPages c).count + 1 < 2 ^ 16)
include hinv hown hc hcnt

theorem freeBlocks_pcpPushLocked_of_owned : (freeBlocks (pcpPushLocked s c x)).Perm ((x, 0) :: freeBlocks s) :=
  freeBlocks_pcpPushLocked hinv.lists (not_mem_nodes_of_owned hown) hc (ne_none_of_owned hinv hown) hcnt

theorem inv_pcpPushLocked : Inv (pcpPushLocked s c x) := by
  have hxn := not_mem_nodes_of_owned hown
  have hblocks := freeBlocks_pcpPushLocked_of_owned hinv hown hc hcnt
  refine hinv.of_sameFreeLists (listsOk_pcpPushLocked hinv.lists hxn hc (ne_none_of_owned hinv hown) hcnt)
    (fun j hj => freeList_pcpPushLocked hinv.lists hxn hj) ?_ ?_ ?_ rfl rfl ?_
  · intro q
    rw [flags_pcpPushLocked, order_pcpPushLocked]
    by_cases hqx : q = x
    · rw [if_pos hqx]
      exact .inr ⟨not_mem_freeList_of_not_mem_nodes (hqx ▸ hxn), by decide⟩
    · rw [if_neg hqx, if_neg hqx]
      exact .inl ⟨rfl, rfl⟩
  · intro b hb
    rw [zone_pcpPushLocked]
    rcases List.mem_cons.mp (hblocks.subset hb) with rfl | hb
    · exact hown.blocks _ List.mem_cons_self
    · exact hinv.blocks b hb
  · apply (pairwise_disjoint_perm hblocks).mpr
    exact hown.disjoint.sublist (List.Sublist.cons_cons _ (List.sublist_append_right _ _))
  · intro d hd p hp
    rw [flags_pcpPushLocked]
    by_cases hpx : p = x
    · rw [if_pos hpx]
    rw [if_neg hpx]
    by_cases hdc : d = c
    · subst hdc
      rw [pcpList_pcpPushLocked_self hinv.lists hxn hd (ne_none_of_owned hinv hown) hcnt] at hp
      exact hinv.pcp_flagged d hd p ((List.mem_cons.mp hp).resolve_left hpx)
    · rw [pcpList_pcpPushLocked_ne hinv.lists hxn hd hdc] at hp
      exact hinv.pcp_flagged d hd p hp

theorem ownedOk_pcpPushLocked : OwnedOk (pcpPushLocked s c x) owned where
  blocks b hb := by
    rw [zone_pcpPushLocked]
    exact hown.blocks b (List.mem_cons_of_mem _ hb)
  disjoint := by
    have hperm : ((x, 0) :: owned ++ freeBlocks s).Perm (owned ++ freeBlocks (pcpPushLocked s c x)) :=
      (((freeBlocks_pcpPushLocked_of_owned hinv hown hc hcnt).append_left owned).trans List.perm_middle).symm
    exact (pairwise_disjoint_perm hperm).mp hown.disjoint

theorem freeSet_pcpPushLocked : freeSet (pcpPushLocked s c x) = toSet (x, 0) ∪ freeSet s := by
  rw [freeSet, cover_eq_of_perm (freeBlocks_pcpPushLocked_of_owned hinv hown hc hcnt), cover_cons]
  rfl

theorem freePages_pcpPushLocked : freePages (pcpPushLocked s c x) = 1 + freePages s :=
  freePages_perm (freeBlocks_pcpPushLocked_of_owned hinv hown hc hcnt)

end PcpPush

section PcpPop
variable {s t : BuddyState} {c x : Nat} (hinv : Inv s) (hc : c < MAX_CPU_NUM) (hpop : pcpPopLocked s c = some (x, t))
include hinv hc hpop

theorem inv_pcpPopLocked : Inv t := by
  have hxl := mem_pcpList_of_pcpPopLocked hinv.lists hc hpop
  have hblocks := freeBlocks_pcpPopLocked hinv.lists hc hpop
  refine hinv.of_sameFreeLists (listsOk_pcpPopLocked hinv.lists hc hpop)
    (fun j hj => freeList_pcpPopLocked hinv.lists hc hpop hj) ?_ ?_ ?_
    (by rw [zone_pcpPopLocked hpop]) (memorySize_pcpPopLocked hpop) ?_
  · intro q
    rw [pageMaps_pcpPopLocked hpop]
    by_cases hqx : q = x
    · rw [if_pos hqx]
      refine .inr ⟨fun j hj hm => freeList_not_mem_pcpList hinv.lists hj hc hm (hqx ▸ hxl), ?_⟩
      exact BitVec.zero_and
    · rw [if_neg hqx]
      exact .inl ⟨rfl, rfl⟩
  · intro b hb
    rw [zone_pcpPopLocked hpop]
    exact hinv.blocks b (hblocks.symm.subset (List.mem_cons_of_mem _ hb))
  · exact (List.pairwise_cons.mp ((pairwise_disjoint_perm hblocks).mp hinv.disjoint)).2
  · intro d hd p hp
    have hold : p ∈ pcpList s d := by
      by_cases hdc : d = c
      · subst hdc
        rw [pcpList_pcpPopLocked_self hinv.lists hd hpop]
        exact List.mem_cons_of_mem _ hp
      · rwa [← pcpList_pcpPopLocked_ne hinv.lists hc hpop hd hdc]
    have hpx : p ≠ x := by
      rintro rfl
      by_cases hdc : d = c
      · subst hdc
        have hnd := (hinv.lists.pcp_linked d hd).nodup
        rw [pcpList_pcpPopLocked_self hinv.lists hd hpop] at hnd
        exact (List.nodup_cons.mp hnd).1 hp
      · exact hdc (pcpList_cpu_unique hinv.lists hd hc hold hxl)
    rw [pageMaps_pcpPopLocked hpop, if_neg hpx]
    exact hinv.pcp_flagged d hd p hold

theorem ownedOk_pcpPopLocked {owned : List (Nat × Nat)} (hown : OwnedOk s owned) : OwnedOk t ((x, 0) :: owned) where
  blocks b hb := by
    rw [zone_pcpPopLocked hpop]
    rcases List.mem_cons.mp hb with rfl | hb
    · exact hinv.blocks _ ((freeBlocks_pcpPopLocked hinv.lists hc hpop).symm.subset List.mem_cons_self)
    · exact hown.blocks b hb
  disjoint := by
    have hperm : (owned ++ freeBlocks s).Perm ((x, 0) :: owned ++ freeBlocks t) :=
      ((freeBlocks_pcpPopLocked hinv.lists hc hpop).append_left owned).trans List.perm_middle
    exact (pairwise_disjoint_perm hperm).mp hown.disjoint

theorem freeSet_pcpPopLocked : freeSet s = toSet (x, 0) ∪ freeSet t := by
  rw [freeSet, cover_eq_of_perm (freeBlocks_pcpPopLocked hinv.lists hc hpop), cover_cons]
  rfl

theorem freePages_pcpPopLocked : freePages s = 1 + freePages t :=
  freePages_perm (freeBlocks_pcpPopLocked hinv.lists hc hpop)

end PcpPop

/-! ## Conservation: the relation every operation establishes -/

/-- the pages of a list of blocks -/
def pagesOf (l : List (Nat × Nat)) : Nat := (l.map fun b => 2 ^ b.2).sum

@[simp] theorem pagesOf_nil : pagesOf [] = 0 := rfl

@[simp] theorem pagesOf_cons (b : Nat × Nat) (l : List (Nat × Nat)) : pagesOf (b :: l) = 2 ^ b.2 + pagesOf l := by
  simp [pagesOf]

theorem pagesOf_perm {l l' : List (Nat × Nat)} (h : l.Perm l') : pagesOf l = pagesOf l' := (h.map _).sum_eq

/-- `t` with the owned blocks `owned'` is `s` with `owned`: the invariant holds, and the frames and the pages on the
lists or owned are the same. Every primitive, and so every operation, is such a step. -/
structure Conserves (s : BuddyState) (owned : List (Nat × Nat)) (t : BuddyState) (owned' : List (Nat × Nat)) :
    Prop where
  inv : Inv t
  own : OwnedOk t owned'
  frames : freeSet t ∪ cover owned' = freeSet s ∪ cover owned
  pages : freePages t + pagesOf owned' = freePages s + pagesOf owned

section Conserves
variable {s t u : BuddyState} {owned owned' owned'' : List (Nat × Nat)}

theorem Conserves.refl (hinv : Inv s) (hown : OwnedOk s owned) : Conserves s owned s owned :=
  ⟨hinv, hown, rfl, rfl⟩

theorem Conserves.trans (h₁ : Conserves s owned t owned') (h₂ : Conserves t owned' u owned'') :
    Conserves s owned u owned'' :=
  ⟨h₂.inv, h₂.own, h₂.frames.trans h₁.frames, h₂.pages.trans h₁.pages⟩

theorem Conserves.perm (h : Conserves s owned t owned') (hp : owned'.Perm owned'') : Conserves s owned t owned'' :=
  ⟨h.inv, h.own.perm hp, by rw [← cover_eq_of_perm hp]; exact h.frames, by rw [← pagesOf_perm hp]; exact h.pages⟩

theorem Conserves.merge {b k : Nat} {rest : List (Nat × Nat)}
    (h : Conserves s owned t ((b, k) :: (b ^^^ 2 ^ k, k) :: rest)) (hk : k + 1 < MAX_ORDER) :
    Conserves s owned t ((min b (b ^^^ 2 ^ k), k + 1) :: rest) := by
  refine ⟨h.inv, h.own.merge hk, ?_, ?_⟩
  · rw [cover_cons, toSet_merge (h.own.blocks _ List.mem_cons_self).aligned, Set.union_assoc, ← cover_cons,
      ← cover_cons]
    exact h.frames
  · have hp := h.pages
    simp only [pagesOf_cons, pow_succ] at hp ⊢
    omega

theorem Conserves.split {b k : Nat} {rest : List (Nat × Nat)} (h : Conserves s owned t ((b, k + 1) :: rest)) :
    Conserves s owned t ((b + 2 ^ k, k) :: (b, k) :: rest) := by
  refine ⟨h.inv, h.own.split, ?_, ?_⟩
  · have hf := h.frames
    rw [cover_cons, toSet_split] at hf
    rw [← hf, cover_cons, cover_cons]
    ext q
    simp only [Set.mem_union]
    tauto
  · have hp := h.pages
    simp only [pagesOf_cons, pow_succ] at hp ⊢
    omega

/-- the frames of the owned blocks are not free -/
theorem OwnedOk.not_mem_cover (hown : OwnedOk s owned) {q : Nat} (hq : q ∈ freeSet s) : q ∉ cover owned := by
  rintro ⟨b, hb, hqb⟩
  exact hown.not_mem_freeSet hb hqb hq

theorem union_cancel_right {A B C : Set Nat} (hA : ∀ q ∈ A, q ∉ C) (hB : ∀ q ∈ B, q ∉ C) (h : A ∪ C = B ∪ C) :
    A = B := by
  ext q
  constructor
  · intro hq
    rcases (h ▸ Set.mem_union_left C hq : q ∈ B ∪ C) with hq' | hq'
    · exact hq'
    · exact absurd hq' (hA q hq)
  · intro hq
    rcases (h.symm ▸ Set.mem_union_left C hq : q ∈ A ∪ C) with hq' | hq'
    · exact hq'
    · exact absurd hq' (hB q hq)

/-- handing back the owned block `b` frees exactly its frames -/
theorem Conserves.freeSet_of_free {b : Nat × Nat} (h : Conserves s (b :: owned) t owned) (hown : OwnedOk s (b :: owned)) :
    freeSet t = toSet b ∪ freeSet s := by
  refine union_cancel_right (fun q hq => h.own.not_mem_cover hq) ?_ ?_
  · rintro q (hq | hq)
    · exact ((pairwise_cons_iff).mp (hown.disjoint.sublist (List.sublist_append_left _ _))).1 q hq
    · exact hown.tail.not_mem_cover hq
  · rw [h.frames, cover_cons, Set.union_left_comm, ← Set.union_assoc]

/-- taking the block `b` into ownership takes exactly its frames -/
theorem Conserves.freeSet_of_take {b : Nat × Nat} (h : Conserves s owned t (b :: owned)) (hown : OwnedOk s owned) :
    freeSet s = toSet b ∪ freeSet t := by
  refine union_cancel_right (fun q hq => hown.not_mem_cover hq) ?_ ?_
  · rintro q (hq | hq)
    · exact ((pairwise_cons_iff).mp (h.own.disjoint.sublist (List.sublist_append_left _ _))).1 q hq
    · exact h.own.tail.not_mem_cover hq
  · rw [← h.frames, cover_cons, Set.union_left_comm, ← Set.union_assoc]

end Conserves

/-! ## The primitives as conserving steps -/

section Primitives
variable {s t : BuddyState} {owned : List (Nat × Nat)}

theorem conserves_freeAreaDel {k x : Nat} (hinv : Inv s) (hown : OwnedOk s owned) (hk : k < MAX_ORDER)
    (hx : x ∈ freeList s k) : Conserves s owned (freeAreaDel s k x) ((x, k) :: owned) := by
  refine ⟨inv_freeAreaDel hinv hk hx, ownedOk_freeAreaDel hinv hk hx hown, ?_, ?_⟩
  · rw [freeSet_freeAreaDel hinv hk hx, cover_cons, Set.union_left_comm, ← Set.union_assoc]
  · rw [freePages_freeAreaDel hinv hk hx, pagesOf_cons]
    dsimp only
    omega

theorem conserves_freeAreaAdd {k x : Nat} (hinv : Inv s) (hown : OwnedOk s ((x, k) :: owned))
    (hco : k + 1 < MAX_ORDER → x ^^^ 2 ^ k ∉ freeList s k) : Conserves s ((x, k) :: owned) (freeAreaAdd s k x) owned := by
  refine ⟨inv_freeAreaAdd hinv hown hco, ownedOk_freeAreaAdd hinv hown, ?_, ?_⟩
  · rw [freeSet_freeAreaAdd hinv hown, cover_cons, Set.union_left_comm, ← Set.union_assoc]
  · rw [freePages_freeAreaAdd hinv hown, pagesOf_cons]
    dsimp only
    omega

theorem conserves_pcpPushLocked {c x : Nat} (hinv : Inv s) (hown : OwnedOk s ((x, 0) :: owned))
    (hc : c < MAX_CPU_NUM) (hcnt : (s.pcpPages c).count + 1 < 2 ^ 16) :
    Conserves s ((x, 0) :: owned) (pcpPushLocked s c x) owned := by
  refine ⟨inv_pcpPushLocked hinv hown hc hcnt, ownedOk_pcpPushLocked hinv hown hc hcnt, ?_, ?_⟩
  · rw [freeSet_pcpPushLocked hinv hown hc hcnt, cover_cons, Set.union_left_comm, ← Set.union_assoc]
  · rw [freePages_pcpPushLocked hinv hown hc hcnt, pagesOf_cons]
    dsimp only
    omega

theorem conserves_pcpPopLocked {c x : Nat} (hinv : Inv s) (hown : OwnedOk s owned) (hc : c < MAX_CPU_NUM)
    (hpop : pcpPopLocked s c = some (x, t)) : Conserves s owned t ((x, 0) :: owned) := by
  refine ⟨inv_pcpPopLocked hinv hc hpop, ownedOk_pcpPopLocked hinv hc hpop hown, ?_, ?_⟩
  · rw [freeSet_pcpPopLocked hinv hc hpop, cover_cons, Set.union_left_comm, ← Set.union_assoc]
  · rw [freePages_pcpPopLocked hinv hc hpop, pagesOf_cons]
    dsimp only
    omega

theorem conserves_setPage {q : Nat} (f : Page → Page) (hinv : Inv s) (hown : OwnedOk s owned) (hq : q ∉ nodes s)
    (hf : (f (s.pageMaps q)).flags &&& PAGE_FLAG_BUDDY = 0) : Conserves s owned (s.setPage q f) owned := by
  have hfree : freeSet (s.setPage q f) = freeSet s := by rw [freeSet, freeBlocks_setPage f hinv hq]; rfl
  have hpages : freePages (s.setPage q f) = freePages s := by rw [freePages, freeBlocks_setPage f hinv hq]; rfl
  exact ⟨inv_setPage hinv hq hf, ownedOk_setPage f hinv hq hown, by rw [hfree], by rw [hpages]⟩

/-- a write to a frame of an owned block that leaves `PAGE_FLAG_BUDDY` clear -/
theorem conserves_setPage_owned {q : Nat} (f : Page → Page) {b : Nat × Nat} (hinv : Inv s) (hown : OwnedOk s owned)
    (hb : b ∈ owned) (hq : Mem q b) (hf : (f (s.pageMaps q)).flags &&& PAGE_FLAG_BUDDY = 0) :
    Conserves s owned (s.setPage q f) owned :=
  conserves_setPage f hinv hown (hown.not_mem_nodes hb hq) hf

end Primitives

end Naos.Buddy
