/-
The free lists of the buddy model as lists, and what each list primitive does to them.

`freeList s k` is the walk of `nr_free` steps from `free_area[k].head_pfn`, `pcpList s c` the walk of `count` steps
from `pcp_pages[c].head_pfn`; `freeBlocks s` lists every free block with its order (per-CPU pages have order 0).
`ListsOk` says these walks are the whole lists: each buddy list is a doubly linked segment through
`prev_pfn`/`next_pfn`, each per-CPU list is linked through `next_pfn`, their lengths are the counters, and no page is
on two lists.

Each primitive (`free_area_add`, `free_area_del`, `pcp_push_locked`, `pcp_pop_locked`, a write to an unlisted page)
gets its link lemmas (what `next_pfn`/`prev_pfn` become), its effect on the lists, and the fact that it keeps
`ListsOk`; later proofs never unfold a primitive. Last, `zone_free_pages` is `freePages`, the sum of `2 ^ order`
over the free blocks, so a permutation of the blocks is all a count argument needs.
-/
import Naos.Mm.Buddy
import Naos.Lib.LinkedStore
import Naos.Lib.AlignedBlock

namespace Naos.Buddy

open LinkedStore AlignedBlock BuddyState

/-! ## The abstraction -/

def nextOf (s : BuddyState) (pfn : Nat) : Nat := (s.pageMaps pfn).nextPfn

def prevOf (s : BuddyState) (pfn : Nat) : Nat := (s.pageMaps pfn).prevPfn

/-- the pages on `free_area[order]`, head first -/
def freeList (s : BuddyState) (order : Nat) : List Nat :=
  walk (nextOf s) PAGE_LIST_NONE (s.zone.freeArea order).headPfn (s.zone.freeArea order).nrFree

/-- the pages on `pcp_pages[cpu]`, head first -/
def pcpList (s : BuddyState) (cpu : Nat) : List Nat :=
  walk (nextOf s) PAGE_LIST_NONE (s.pcpPages cpu).headPfn (s.pcpPages cpu).count

/-- every free block as (head frame number, order): the buddy lists by order, then the per-CPU pages -/
def freeBlocks (s : BuddyState) : List (Nat × Nat) :=
  (List.range MAX_ORDER).flatMap (fun k => (freeList s k).map fun b => (b, k)) ++
    (List.range MAX_CPU_NUM).flatMap (fun c => (pcpList s c).map fun p => (p, 0))

/-- the pages on all lists: the head pages of the free blocks -/
def nodes (s : BuddyState) : List Nat :=
  (List.range MAX_ORDER).flatMap (freeList s) ++ (List.range MAX_CPU_NUM).flatMap (pcpList s)

theorem nextOf_def (s : BuddyState) (pfn : Nat) : nextOf s pfn = (s.pageMaps pfn).nextPfn := rfl

theorem prevOf_def (s : BuddyState) (pfn : Nat) : prevOf s pfn = (s.pageMaps pfn).prevPfn := rfl

theorem freeList_def (s : BuddyState) (order : Nat) :
    freeList s order = walk (nextOf s) PAGE_LIST_NONE (s.zone.freeArea order).headPfn (s.zone.freeArea order).nrFree :=
  rfl

theorem pcpList_def (s : BuddyState) (cpu : Nat) :
    pcpList s cpu = walk (nextOf s) PAGE_LIST_NONE (s.pcpPages cpu).headPfn (s.pcpPages cpu).count := rfl

theorem freeBlocks_def (s : BuddyState) :
    freeBlocks s = (List.range MAX_ORDER).flatMap (fun k => (freeList s k).map fun b => (b, k)) ++
      (List.range MAX_CPU_NUM).flatMap (fun c => (pcpList s c).map fun p => (p, 0)) := rfl

theorem nodes_def (s : BuddyState) :
    nodes s = (List.range MAX_ORDER).flatMap (freeList s) ++ (List.range MAX_CPU_NUM).flatMap (pcpList s) := rfl

structure ListsOk (s : BuddyState) : Prop where
  area_dseg : ∀ k < MAX_ORDER,
    DSeg (nextOf s) (prevOf s) PAGE_LIST_NONE PAGE_LIST_NONE (s.zone.freeArea k).headPfn (freeList s k)
  area_len : ∀ k < MAX_ORDER, (freeList s k).length = (s.zone.freeArea k).nrFree
  pcp_linked : ∀ c < MAX_CPU_NUM, Linked (nextOf s) PAGE_LIST_NONE (s.pcpPages c).headPfn (pcpList s c)
  pcp_len : ∀ c < MAX_CPU_NUM, (pcpList s c).length = (s.pcpPages c).count
  nodup : (nodes s).Nodup

theorem freeList_eq_of_linked {s : BuddyState} {k : Nat} {l : List Nat}
    (hl : Linked (nextOf s) PAGE_LIST_NONE (s.zone.freeArea k).headPfn l)
    (hlen : l.length = (s.zone.freeArea k).nrFree) : freeList s k = l := by
  rw [freeList_def]
  rw [← hlen]
  exact hl.walk_eq

theorem pcpList_eq_of_linked {s : BuddyState} {c : Nat} {l : List Nat}
    (hl : Linked (nextOf s) PAGE_LIST_NONE (s.pcpPages c).headPfn l)
    (hlen : l.length = (s.pcpPages c).count) : pcpList s c = l := by
  rw [pcpList_def]
  rw [← hlen]
  exact hl.walk_eq

/-! ## Membership in the family of lists -/

theorem mem_freeBlocks {s : BuddyState} {b : Nat × Nat} :
    b ∈ freeBlocks s ↔ (b.2 < MAX_ORDER ∧ b.1 ∈ freeList s b.2) ∨
      (b.2 = 0 ∧ ∃ c < MAX_CPU_NUM, b.1 ∈ pcpList s c) := by
  obtain ⟨p, k⟩ := b
  simp only [freeBlocks_def, List.mem_append, List.mem_flatMap, List.mem_range, List.mem_map, Prod.mk.injEq]
  constructor
  · rintro (⟨k', hk', b', hb', rfl, rfl⟩ | ⟨c, hc, p', hp', rfl, rfl⟩)
    · exact .inl ⟨hk', hb'⟩
    · exact .inr ⟨rfl, c, hc, hp'⟩
  · rintro (⟨hk, hp⟩ | ⟨rfl, c, hc, hp⟩)
    · exact .inl ⟨k, hk, p, hp, rfl, rfl⟩
    · exact .inr ⟨c, hc, p, hp, rfl, rfl⟩

theorem mem_nodes {s : BuddyState} {q : Nat} :
    q ∈ nodes s ↔ (∃ k < MAX_ORDER, q ∈ freeList s k) ∨ ∃ c < MAX_CPU_NUM, q ∈ pcpList s c := by
  simp [nodes_def]

theorem mem_nodes_of_freeList {s : BuddyState} {k b : Nat} (hk : k < MAX_ORDER) (hb : b ∈ freeList s k) :
    b ∈ nodes s := (mem_nodes).mpr (.inl ⟨k, hk, hb⟩)

theorem mem_nodes_of_pcpList {s : BuddyState} {c p : Nat} (hc : c < MAX_CPU_NUM) (hp : p ∈ pcpList s c) :
    p ∈ nodes s := (mem_nodes).mpr (.inr ⟨c, hc, hp⟩)

section Unique
variable {s : BuddyState} (hok : ListsOk s)
include hok

theorem freeList_order_unique {j k b : Nat} (hj : j < MAX_ORDER) (hk : k < MAX_ORDER)
    (hbj : b ∈ freeList s j) (hbk : b ∈ freeList s k) : j = k :=
  flatMap_range_mem_unique (List.nodup_append.mp hok.nodup).1 hj hk hbj hbk

theorem pcpList_cpu_unique {c d p : Nat} (hc : c < MAX_CPU_NUM) (hd : d < MAX_CPU_NUM)
    (hpc : p ∈ pcpList s c) (hpd : p ∈ pcpList s d) : c = d :=
  flatMap_range_mem_unique (List.nodup_append.mp hok.nodup).2.1 hc hd hpc hpd

theorem freeList_not_mem_pcpList {k c b : Nat} (hk : k < MAX_ORDER) (hc : c < MAX_CPU_NUM)
    (hbk : b ∈ freeList s k) (hbc : b ∈ pcpList s c) : False :=
  (List.nodup_append.mp hok.nodup).2.2 _ (List.mem_flatMap.mpr ⟨k, List.mem_range.mpr hk, hbk⟩)
    _ (List.mem_flatMap.mpr ⟨c, List.mem_range.mpr hc, hbc⟩) rfl

theorem not_mem_nil_freeList {k : Nat} (hk : k < MAX_ORDER) : PAGE_LIST_NONE ∉ freeList s k :=
  (hok.area_dseg k hk).linked.not_mem_nil

end Unique

/-! ## Links under the state setters -/

@[simp] theorem nextOf_setPage (s : BuddyState) (pfn : Nat) (f : Page → Page) (q : Nat) :
    nextOf (s.setPage pfn f) q = if q = pfn then (f (s.pageMaps pfn)).nextPfn else nextOf s q := by
  simp only [nextOf_def]
  split_ifs with h <;> simp [h]

@[simp] theorem prevOf_setPage (s : BuddyState) (pfn : Nat) (f : Page → Page) (q : Nat) :
    prevOf (s.setPage pfn f) q = if q = pfn then (f (s.pageMaps pfn)).prevPfn else prevOf s q := by
  simp only [prevOf_def]
  split_ifs with h <;> simp [h]

@[simp] theorem nextOf_setArea (s : BuddyState) (order : Nat) (f : FreeArea → FreeArea) :
    nextOf (s.setArea order f) = nextOf s := rfl
@[simp] theorem prevOf_setArea (s : BuddyState) (order : Nat) (f : FreeArea → FreeArea) :
    prevOf (s.setArea order f) = prevOf s := rfl
@[simp] theorem nextOf_setPcp (s : BuddyState) (cpu : Nat) (f : PerCpuPages → PerCpuPages) :
    nextOf (s.setPcp cpu f) = nextOf s := rfl
@[simp] theorem prevOf_setPcp (s : BuddyState) (cpu : Nat) (f : PerCpuPages → PerCpuPages) :
    prevOf (s.setPcp cpu f) = prevOf s := rfl

/-! ## Writes that miss every listed page -/

/-- `t` has the list heads and counters of `s`, and the same links on every listed page -/
structure LinksAgree (s t : BuddyState) : Prop where
  area : ∀ k, t.zone.freeArea k = s.zone.freeArea k
  pcp : ∀ c, t.pcpPages c = s.pcpPages c
  next : ∀ q ∈ nodes s, nextOf t q = nextOf s q
  prev : ∀ q ∈ nodes s, prevOf t q = prevOf s q

section LinksAgree
variable {s t : BuddyState}

theorem LinksAgree.freeList_eq (hok : ListsOk s) (h : LinksAgree s t) {k : Nat} (hk : k < MAX_ORDER) :
    freeList t k = freeList s k := by
  apply freeList_eq_of_linked
  · rw [h.area k]
    exact (hok.area_dseg k hk).linked.frame fun q hq => h.next q (mem_nodes_of_freeList hk hq)
  · rw [h.area k, hok.area_len k hk]

theorem LinksAgree.pcpList_eq (hok : ListsOk s) (h : LinksAgree s t) {c : Nat} (hc : c < MAX_CPU_NUM) :
    pcpList t c = pcpList s c := by
  apply pcpList_eq_of_linked
  · rw [h.pcp c]
    exact (hok.pcp_linked c hc).frame fun q hq => h.next q (mem_nodes_of_pcpList hc hq)
  · rw [h.pcp c, hok.pcp_len c hc]

theorem LinksAgree.freeBlocks_eq (hok : ListsOk s) (h : LinksAgree s t) : freeBlocks t = freeBlocks s := by
  simp only [freeBlocks_def]
  congr 1
  · apply flatMap_range_congr
    intro k hk
    rw [h.freeList_eq hok hk]
  · apply flatMap_range_congr
    intro c hc
    rw [h.pcpList_eq hok hc]

theorem LinksAgree.nodes_eq (hok : ListsOk s) (h : LinksAgree s t) : nodes t = nodes s := by
  simp only [nodes_def]
  rw [flatMap_range_congr fun k hk => h.freeList_eq hok hk, flatMap_range_congr fun c hc => h.pcpList_eq hok hc]

theorem LinksAgree.listsOk (hok : ListsOk s) (h : LinksAgree s t) : ListsOk t where
  area_dseg k hk := by
    rw [h.freeList_eq hok hk, h.area k]
    have hs := hok.area_dseg k hk
    exact hs.frame (fun q hq => h.next q (mem_nodes_of_freeList hk hq))
      (fun q hq _ => h.prev q (mem_nodes_of_freeList hk hq))
      (fun hne => (h.prev _ (mem_nodes_of_freeList hk (hs.head_mem hne))).trans (hs.prv_head hne))
  area_len k hk := by rw [h.freeList_eq hok hk, h.area k, hok.area_len k hk]
  pcp_linked c hc := by
    rw [h.pcpList_eq hok hc, h.pcp c]
    exact (hok.pcp_linked c hc).frame fun q hq => h.next q (mem_nodes_of_pcpList hc hq)
  pcp_len c hc := by rw [h.pcpList_eq hok hc, h.pcp c, hok.pcp_len c hc]
  nodup := by rw [h.nodes_eq hok]; exact hok.nodup

/-- a write to a page on no list -/
theorem linksAgree_setPage {q : Nat} (f : Page → Page) (hq : q ∉ nodes s) : LinksAgree s (s.setPage q f) where
  area _ := rfl
  pcp _ := rfl
  next y hy := by rw [nextOf_setPage, if_neg (by rintro rfl; exact hq hy)]
  prev y hy := by rw [prevOf_setPage, if_neg (by rintro rfl; exact hq hy)]

end LinksAgree

/-! ## `free_area_add` -/

section FreeAreaAdd
variable {s : BuddyState} {k x : Nat}

/-- the pages after `free_area_add`: the new head, marked free and pointing at the old head, which points back -/
theorem pageMaps_freeAreaAdd (hxh : x ≠ (s.zone.freeArea k).headPfn) (q : Nat) :
    (freeAreaAdd s k x).pageMaps q =
      if q = x then { pageMarkFree (s.pageMaps x) k with nextPfn := (s.zone.freeArea k).headPfn }
      else if q = (s.zone.freeArea k).headPfn ∧ (s.zone.freeArea k).headPfn ≠ PAGE_LIST_NONE then
        { s.pageMaps q with prevPfn := x }
      else s.pageMaps q := by
  unfold freeAreaAdd
  by_cases hh : (s.zone.freeArea k).headPfn = PAGE_LIST_NONE
  · simp only [hh, ne_eq, not_true_eq_false, if_false, setArea_pageMaps, setPage_pageMaps, and_false]
    split_ifs <;> simp_all [pageMarkFree]
  · simp only [hh, ne_eq, not_false_eq_true, if_true, setArea_pageMaps, setPage_pageMaps, and_true]
    split_ifs <;> simp_all

/-- the state before the counter update: `free_area_add` is this followed by a write to `free_area[order]` -/
theorem freeAreaAdd_eq_setArea (s : BuddyState) (k x : Nat) :
    ∃ t : BuddyState, (t.zone = s.zone ∧ t.pcpPages = s.pcpPages ∧ t.memorySize = s.memorySize ∧
      t.cpuCount = s.cpuCount) ∧
      freeAreaAdd s k x = t.setArea k fun area => { area with headPfn := x, nrFree := area.nrFree + 1 } := by
  by_cases hh : (s.zone.freeArea k).headPfn = PAGE_LIST_NONE
  · refine ⟨_, ⟨?_, ?_, ?_, ?_⟩, by simp only [freeAreaAdd, hh, ne_eq, not_true_eq_false, if_false]; rfl⟩ <;> rfl
  · refine ⟨_, ⟨?_, ?_, ?_, ?_⟩, by simp only [freeAreaAdd, hh, ne_eq, not_false_eq_true, if_true]; rfl⟩ <;> rfl

theorem freeArea_freeAreaAdd (j : Nat) :
    (freeAreaAdd s k x).zone.freeArea j =
      if j = k then ⟨x, (s.zone.freeArea k).nrFree + 1⟩ else s.zone.freeArea j := by
  obtain ⟨t, ⟨hz, -⟩, heq⟩ := freeAreaAdd_eq_setArea s k x
  rw [heq, setArea_freeArea, hz]

@[simp] theorem pcpPages_freeAreaAdd : (freeAreaAdd s k x).pcpPages = s.pcpPages := by
  obtain ⟨t, ⟨-, hp, -⟩, heq⟩ := freeAreaAdd_eq_setArea s k x
  rw [heq, setArea_pcpPages, hp]

@[simp] theorem zoneStartPfn_freeAreaAdd : (freeAreaAdd s k x).zone.zoneStartPfn = s.zone.zoneStartPfn := by
  obtain ⟨t, ⟨hz, -⟩, heq⟩ := freeAreaAdd_eq_setArea s k x
  rw [heq, setArea_zoneStartPfn, hz]

@[simp] theorem zoneEndPfn_freeAreaAdd : (freeAreaAdd s k x).zone.zoneEndPfn = s.zone.zoneEndPfn := by
  obtain ⟨t, ⟨hz, -⟩, heq⟩ := freeAreaAdd_eq_setArea s k x
  rw [heq, setArea_zoneEndPfn, hz]

@[simp] theorem managedPages_freeAreaAdd : (freeAreaAdd s k x).zone.managedPages = s.zone.managedPages := by
  obtain ⟨t, ⟨hz, -⟩, heq⟩ := freeAreaAdd_eq_setArea s k x
  rw [heq, setArea_managedPages, hz]

@[simp] theorem memorySize_freeAreaAdd : (freeAreaAdd s k x).memorySize = s.memorySize := by
  obtain ⟨t, ⟨-, -, hm, -⟩, heq⟩ := freeAreaAdd_eq_setArea s k x
  rw [heq, setArea_memorySize, hm]

theorem nextOf_freeAreaAdd (hxh : x ≠ (s.zone.freeArea k).headPfn) (q : Nat) :
    nextOf (freeAreaAdd s k x) q = if q = x then (s.zone.freeArea k).headPfn else nextOf s q := by
  simp only [nextOf_def]
  rw [pageMaps_freeAreaAdd hxh]
  split_ifs <;> rfl

theorem prevOf_freeAreaAdd (hxh : x ≠ (s.zone.freeArea k).headPfn) (q : Nat) :
    prevOf (freeAreaAdd s k x) q =
      if q = x then PAGE_LIST_NONE
      else if q = (s.zone.freeArea k).headPfn ∧ (s.zone.freeArea k).headPfn ≠ PAGE_LIST_NONE then x
      else prevOf s q := by
  simp only [prevOf_def]
  rw [pageMaps_freeAreaAdd hxh]
  split_ifs <;> rfl

theorem flags_freeAreaAdd (hxh : x ≠ (s.zone.freeArea k).headPfn) (q : Nat) :
    ((freeAreaAdd s k x).pageMaps q).flags = if q = x then PAGE_FLAG_BUDDY else (s.pageMaps q).flags := by
  rw [pageMaps_freeAreaAdd hxh]
  split_ifs <;> rfl

theorem order_freeAreaAdd (hxh : x ≠ (s.zone.freeArea k).headPfn) (q : Nat) :
    ((freeAreaAdd s k x).pageMaps q).order = if q = x then k else (s.pageMaps q).order := by
  rw [pageMaps_freeAreaAdd hxh]
  split_ifs <;> rfl

/-- a page on no list is not the head of a list -/
theorem ne_headPfn_of_not_mem (hok : ListsOk s) (hk : k < MAX_ORDER) (hx : x ≠ PAGE_LIST_NONE)
    (hxn : x ∉ nodes s) : x ≠ (s.zone.freeArea k).headPfn := by
  intro he
  apply hxn
  rw [he]
  exact mem_nodes_of_freeList hk ((hok.area_dseg k hk).head_mem (he ▸ hx))

section Spec
variable (hok : ListsOk s) (hk : k < MAX_ORDER) (hx : x ≠ PAGE_LIST_NONE) (hxn : x ∉ nodes s)
include hok hk hx hxn

theorem dseg_freeAreaAdd_self :
    DSeg (nextOf (freeAreaAdd s k x)) (prevOf (freeAreaAdd s k x)) PAGE_LIST_NONE PAGE_LIST_NONE x
      (x :: freeList s k) := by
  have hxh := ne_headPfn_of_not_mem hok hk hx hxn
  have hxl : x ∉ freeList s k := fun h => hxn (mem_nodes_of_freeList hk h)
  refine (hok.area_dseg k hk).push hx ?_ ?_ ?_ ?_ ?_
  · simp [nextOf_freeAreaAdd hxh]
  · simp [prevOf_freeAreaAdd hxh]
  · intro hne
    simp [prevOf_freeAreaAdd hxh, Ne.symm hxh, hne]
  · intro y hy
    rw [nextOf_freeAreaAdd hxh, if_neg (by rintro rfl; exact hxl hy)]
  · intro y hy hyh
    rw [prevOf_freeAreaAdd hxh, if_neg (by rintro rfl; exact hxl hy), if_neg (fun h => hyh h.1)]

theorem freeList_freeAreaAdd_self : freeList (freeAreaAdd s k x) k = x :: freeList s k := by
  apply freeList_eq_of_linked
  · rw [freeArea_freeAreaAdd, if_pos rfl]
    exact (dseg_freeAreaAdd_self hok hk hx hxn).linked
  · rw [freeArea_freeAreaAdd, if_pos rfl, List.length_cons, hok.area_len k hk]

/-- a page of another list is neither the new head nor the old one -/
theorem links_freeAreaAdd_of_mem_other {y : Nat} (hy : y ∈ nodes s) (hyk : y ∉ freeList s k) :
    nextOf (freeAreaAdd s k x) y = nextOf s y ∧ prevOf (freeAreaAdd s k x) y = prevOf s y := by
  have hxh := ne_headPfn_of_not_mem hok hk hx hxn
  have hyx : y ≠ x := by rintro rfl; exact hxn hy
  have hyh : ¬ (y = (s.zone.freeArea k).headPfn ∧ (s.zone.freeArea k).headPfn ≠ PAGE_LIST_NONE) := by
    rintro ⟨rfl, hne⟩
    exact hyk ((hok.area_dseg k hk).head_mem hne)
  rw [nextOf_freeAreaAdd hxh, prevOf_freeAreaAdd hxh, if_neg hyx, if_neg hyx, if_neg hyh]
  exact ⟨rfl, rfl⟩

theorem freeList_freeAreaAdd_ne {j : Nat} (hj : j < MAX_ORDER) (hjk : j ≠ k) :
    freeList (freeAreaAdd s k x) j = freeList s j := by
  have hother (y : Nat) (hy : y ∈ freeList s j) := links_freeAreaAdd_of_mem_other hok hk hx hxn
    (mem_nodes_of_freeList hj hy) (fun h => hjk (freeList_order_unique hok hj hk hy h))
  apply freeList_eq_of_linked
  · rw [freeArea_freeAreaAdd, if_neg hjk]
    exact (hok.area_dseg j hj).linked.frame fun y hy => (hother y hy).1
  · rw [freeArea_freeAreaAdd, if_neg hjk, hok.area_len j hj]

theorem pcpList_freeAreaAdd {c : Nat} (hc : c < MAX_CPU_NUM) : pcpList (freeAreaAdd s k x) c = pcpList s c := by
  apply pcpList_eq_of_linked
  · rw [pcpPages_freeAreaAdd]
    exact (hok.pcp_linked c hc).frame fun y hy => (links_freeAreaAdd_of_mem_other hok hk hx hxn
      (mem_nodes_of_pcpList hc hy) (fun h => freeList_not_mem_pcpList hok hk hc h hy)).1
  · rw [pcpPages_freeAreaAdd, hok.pcp_len c hc]

theorem nodes_freeAreaAdd : (nodes (freeAreaAdd s k x)).Perm (x :: nodes s) := by
  simp only [nodes_def]
  rw [flatMap_range_congr fun c (hc : c < MAX_CPU_NUM) => pcpList_freeAreaAdd hok hk hx hxn hc]
  refine (perm_flatMap_range_cons hk x ?_ ?_).append_right _
  · rw [freeList_freeAreaAdd_self hok hk hx hxn]
  · intro j hj hjk
    exact freeList_freeAreaAdd_ne hok hk hx hxn hj hjk

theorem freeBlocks_freeAreaAdd : (freeBlocks (freeAreaAdd s k x)).Perm ((x, k) :: freeBlocks s) := by
  simp only [freeBlocks_def]
  rw [flatMap_range_congr fun c (hc : c < MAX_CPU_NUM) => by rw [pcpList_freeAreaAdd hok hk hx hxn hc]]
  refine (perm_flatMap_range_cons hk (x, k) ?_ ?_).append_right _
  · rw [freeList_freeAreaAdd_self hok hk hx hxn, List.map_cons]
  · intro j hj hjk
    rw [freeList_freeAreaAdd_ne hok hk hx hxn hj hjk]

theorem listsOk_freeAreaAdd : ListsOk (freeAreaAdd s k x) where
  area_dseg j hj := by
    by_cases hjk : j = k
    · subst hjk
      rw [freeList_freeAreaAdd_self hok hj hx hxn, freeArea_freeAreaAdd, if_pos rfl]
      exact dseg_freeAreaAdd_self hok hj hx hxn
    · have hother (y : Nat) (hy : y ∈ freeList s j) := links_freeAreaAdd_of_mem_other hok hk hx hxn
        (mem_nodes_of_freeList hj hy) (fun h => hjk (freeList_order_unique hok hj hk hy h))
      have hs := hok.area_dseg j hj
      rw [freeList_freeAreaAdd_ne hok hk hx hxn hj hjk, freeArea_freeAreaAdd, if_neg hjk]
      exact hs.frame (fun y hy => (hother y hy).1) (fun y hy _ => (hother y hy).2)
        (fun hne => ((hother _ (hs.head_mem hne)).2).trans (hs.prv_head hne))
  area_len j hj := by
    by_cases hjk : j = k
    · subst hjk
      rw [freeList_freeAreaAdd_self hok hj hx hxn, freeArea_freeAreaAdd, if_pos rfl, List.length_cons,
        hok.area_len j hj]
    · rw [freeList_freeAreaAdd_ne hok hk hx hxn hj hjk, freeArea_freeAreaAdd, if_neg hjk, hok.area_len j hj]
  pcp_linked c hc := by
    rw [pcpList_freeAreaAdd hok hk hx hxn hc, pcpPages_freeAreaAdd]
    exact (hok.pcp_linked c hc).frame fun y hy => (links_freeAreaAdd_of_mem_other hok hk hx hxn
      (mem_nodes_of_pcpList hc hy) (fun h => freeList_not_mem_pcpList hok hk hc h hy)).1
  pcp_len c hc := by rw [pcpList_freeAreaAdd hok hk hx hxn hc, pcpPages_freeAreaAdd, hok.pcp_len c hc]
  nodup := (nodes_freeAreaAdd hok hk hx hxn).nodup_iff.mpr (List.nodup_cons.mpr ⟨hxn, hok.nodup⟩)

end Spec

end FreeAreaAdd

/-! ## Page writes that touch links only -/

theorem setPage_pageMaps_self (s : BuddyState) (pfn : Nat) (f : Page → Page) :
    (s.setPage pfn f).pageMaps pfn = f (s.pageMaps pfn) := by simp

theorem setPage_pageMaps_ne {s : BuddyState} {pfn q : Nat} (f : Page → Page) (h : q ≠ pfn) :
    (s.setPage pfn f).pageMaps q = s.pageMaps q := by simp [h]

section LinkWrites
variable (s : BuddyState) (pfn v q : Nat)

@[simp] theorem flags_setPage_nextPfn :
    ((s.setPage pfn fun p => { p with nextPfn := v }).pageMaps q).flags = (s.pageMaps q).flags := by
  by_cases h : q = pfn <;> simp [h]
@[simp] theorem flags_setPage_prevPfn :
    ((s.setPage pfn fun p => { p with prevPfn := v }).pageMaps q).flags = (s.pageMaps q).flags := by
  by_cases h : q = pfn <;> simp [h]
@[simp] theorem order_setPage_nextPfn :
    ((s.setPage pfn fun p => { p with nextPfn := v }).pageMaps q).order = (s.pageMaps q).order := by
  by_cases h : q = pfn <;> simp [h]
@[simp] theorem order_setPage_prevPfn :
    ((s.setPage pfn fun p => { p with prevPfn := v }).pageMaps q).order = (s.pageMaps q).order := by
  by_cases h : q = pfn <;> simp [h]

end LinkWrites

/-! ## `free_area_del` -/

section FreeAreaDel
variable {s : BuddyState} {k x : Nat}

/-- `free_area_del` as its three writes: unlink from the predecessor (or the head), unlink from the successor,
then the counter and the page itself -/
theorem freeAreaDel_eq (s : BuddyState) (k x : Nat) :
    freeAreaDel s k x =
      let s1 := if prevOf s x ≠ PAGE_LIST_NONE then
          s.setPage (prevOf s x) fun prev => { prev with nextPfn := nextOf s x }
        else s.setArea k fun area => { area with headPfn := nextOf s x }
      let s2 := if nextOf s1 x ≠ PAGE_LIST_NONE then
          s1.setPage (nextOf s1 x) fun next => { next with prevPfn := prevOf s1 x }
        else s1
      (s2.setArea k fun area => { area with nrFree := area.nrFree - 1 }).setPage x (pageMarkAllocated · k) := rfl

@[simp] theorem pcpPages_freeAreaDel : (freeAreaDel s k x).pcpPages = s.pcpPages := by
  rw [freeAreaDel_eq]
  dsimp only
  split_ifs <;> rfl

@[simp] theorem zoneStartPfn_freeAreaDel : (freeAreaDel s k x).zone.zoneStartPfn = s.zone.zoneStartPfn := by
  rw [freeAreaDel_eq]
  dsimp only
  split_ifs <;> rfl

@[simp] theorem zoneEndPfn_freeAreaDel : (freeAreaDel s k x).zone.zoneEndPfn = s.zone.zoneEndPfn := by
  rw [freeAreaDel_eq]
  dsimp only
  split_ifs <;> rfl

@[simp] theorem managedPages_freeAreaDel : (freeAreaDel s k x).zone.managedPages = s.zone.managedPages := by
  rw [freeAreaDel_eq]
  dsimp only
  split_ifs <;> rfl

@[simp] theorem memorySize_freeAreaDel : (freeAreaDel s k x).memorySize = s.memorySize := by
  rw [freeAreaDel_eq]
  dsimp only
  split_ifs <;> rfl

theorem freeArea_freeAreaDel (j : Nat) :
    (freeAreaDel s k x).zone.freeArea j =
      if j = k then
        ⟨if prevOf s x ≠ PAGE_LIST_NONE then (s.zone.freeArea k).headPfn else nextOf s x,
          (s.zone.freeArea k).nrFree - 1⟩
      else s.zone.freeArea j := by
  rw [freeAreaDel_eq]
  dsimp only
  simp only [apply_ite BuddyState.zone, setPage_zone, ite_self, setArea_freeArea]
  by_cases h1 : prevOf s x = PAGE_LIST_NONE <;>
    simp only [h1, ne_eq, not_true_eq_false, not_false_eq_true, if_false, if_true, setArea_freeArea]
  split_ifs <;> rfl

theorem flags_freeAreaDel (q : Nat) :
    ((freeAreaDel s k x).pageMaps q).flags = if q = x then 0 else (s.pageMaps q).flags := by
  rw [freeAreaDel_eq]
  dsimp only
  by_cases hq : q = x
  · subst hq
    rw [if_pos rfl, setPage_pageMaps_self]
    rfl
  · rw [if_neg hq, setPage_pageMaps_ne _ hq, setArea_pageMaps]
    split_ifs <;> simp only [flags_setPage_nextPfn, flags_setPage_prevPfn, setArea_pageMaps]

theorem order_freeAreaDel (q : Nat) :
    ((freeAreaDel s k x).pageMaps q).order = if q = x then k else (s.pageMaps q).order := by
  rw [freeAreaDel_eq]
  dsimp only
  by_cases hq : q = x
  · subst hq
    rw [if_pos rfl, setPage_pageMaps_self]
    rfl
  · rw [if_neg hq, setPage_pageMaps_ne _ hq, setArea_pageMaps]
    split_ifs <;> simp only [order_setPage_nextPfn, order_setPage_prevPfn, setArea_pageMaps]

theorem nextOf_freeAreaDel (hpx : prevOf s x ≠ x) (q : Nat) :
    nextOf (freeAreaDel s k x) q =
      if q = x then PAGE_LIST_NONE
      else if q = prevOf s x ∧ prevOf s x ≠ PAGE_LIST_NONE then nextOf s x else nextOf s q := by
  have hxp : x ≠ prevOf s x := Ne.symm hpx
  rw [freeAreaDel_eq]
  dsimp only
  by_cases hp : prevOf s x = PAGE_LIST_NONE <;> by_cases hn : nextOf s x = PAGE_LIST_NONE <;>
    simp only [hp, hn, hxp, ne_eq, not_true_eq_false, not_false_eq_true, if_true, if_false, nextOf_setPage,
      nextOf_setArea, prevOf_setPage, prevOf_setArea, and_true, and_false] <;>
    split_ifs <;> first | rfl | (simp_all; done) | (simp_all; rfl)

theorem prevOf_freeAreaDel (hpx : prevOf s x ≠ x) (q : Nat) :
    prevOf (freeAreaDel s k x) q =
      if q = x then PAGE_LIST_NONE
      else if q = nextOf s x ∧ nextOf s x ≠ PAGE_LIST_NONE then prevOf s x else prevOf s q := by
  have hxp : x ≠ prevOf s x := Ne.symm hpx
  rw [freeAreaDel_eq]
  dsimp only
  by_cases hp : prevOf s x = PAGE_LIST_NONE <;> by_cases hn : nextOf s x = PAGE_LIST_NONE <;>
    simp only [hp, hn, hxp, ne_eq, not_true_eq_false, not_false_eq_true, if_true, if_false, nextOf_setPage,
      nextOf_setArea, prevOf_setPage, prevOf_setArea, and_true, and_false] <;>
    split_ifs <;> first | rfl | (simp_all; done) | (simp_all; rfl)

section Spec
variable (hok : ListsOk s) (hk : k < MAX_ORDER) (hxl : x ∈ freeList s k)
include hok hk hxl

theorem prevOf_ne_self_of_mem : prevOf s x ≠ x :=
  (hok.area_dseg k hk).prv_ne_self (not_mem_nil_freeList hok hk) hxl

theorem nextOf_ne_self_of_mem : nextOf s x ≠ x := by
  intro he
  have hxn : nextOf s x ≠ PAGE_LIST_NONE := by
    rw [he]
    exact fun h => not_mem_nil_freeList hok hk (h ▸ hxl)
  have hback := (hok.area_dseg k hk).prv_nxt hxl hxn
  rw [he] at hback
  exact prevOf_ne_self_of_mem hok hk hxl hback

/-- the neighbours of a listed page are on its list, or are `PAGE_LIST_NONE` -/
theorem neighbours_mem :
    (prevOf s x = PAGE_LIST_NONE ∨ prevOf s x ∈ freeList s k) ∧
      (nextOf s x = PAGE_LIST_NONE ∨ nextOf s x ∈ freeList s k) :=
  ⟨(hok.area_dseg k hk).prv_mem hxl, (hok.area_dseg k hk).nxt_mem hxl⟩

theorem links_freeAreaDel_of_mem_other {y : Nat} (hyk : y ∉ freeList s k) :
    nextOf (freeAreaDel s k x) y = nextOf s y ∧ prevOf (freeAreaDel s k x) y = prevOf s y := by
  have hpx := prevOf_ne_self_of_mem hok hk hxl
  have hyx : y ≠ x := by rintro rfl; exact hyk hxl
  obtain ⟨hp, hn⟩ := neighbours_mem hok hk hxl
  have hyp : ¬ (y = prevOf s x ∧ prevOf s x ≠ PAGE_LIST_NONE) := by
    rintro ⟨rfl, hne⟩
    exact hyk (hp.resolve_left hne)
  have hyn : ¬ (y = nextOf s x ∧ nextOf s x ≠ PAGE_LIST_NONE) := by
    rintro ⟨rfl, hne⟩
    exact hyk (hn.resolve_left hne)
  rw [nextOf_freeAreaDel hpx, prevOf_freeAreaDel hpx, if_neg hyx, if_neg hyx, if_neg hyp, if_neg hyn]
  exact ⟨rfl, rfl⟩

theorem dseg_freeAreaDel_self :
    DSeg (nextOf (freeAreaDel s k x)) (prevOf (freeAreaDel s k x)) PAGE_LIST_NONE PAGE_LIST_NONE
      ((freeAreaDel s k x).zone.freeArea k).headPfn ((freeList s k).erase x) := by
  have hs := hok.area_dseg k hk
  have hnil := not_mem_nil_freeList hok hk
  have hpx := prevOf_ne_self_of_mem hok hk hxl
  have hnx := nextOf_ne_self_of_mem hok hk hxl
  have hhead : ((freeAreaDel s k x).zone.freeArea k).headPfn =
      if x = (s.zone.freeArea k).headPfn then nextOf s x else (s.zone.freeArea k).headPfn := by
    rw [freeArea_freeAreaDel, if_pos rfl]
    by_cases hxh : x = (s.zone.freeArea k).headPfn
    · rw [if_pos hxh, if_neg (not_not.mpr ((hs.prv_eq_nil_iff hxl).mpr hxh))]
    · rw [if_neg hxh, if_pos (fun h => hxh ((hs.prv_eq_nil_iff hxl).mp h))]
  rw [hhead]
  refine hs.erase hnil hxl ?_ ?_ ?_ ?_
  · intro hxh
    have hp : prevOf s x ≠ PAGE_LIST_NONE := fun h => hxh ((hs.prv_eq_nil_iff hxl).mp h)
    rw [nextOf_freeAreaDel hpx, if_neg hpx, if_pos ⟨rfl, hp⟩]
  · intro hne
    rw [prevOf_freeAreaDel hpx, if_neg hnx, if_pos ⟨rfl, hne⟩]
  · intro y _ hyx hyp
    rw [nextOf_freeAreaDel hpx, if_neg hyx, if_neg (fun h => hyp h.1)]
  · intro y _ hyx hyn
    rw [prevOf_freeAreaDel hpx, if_neg hyx, if_neg (fun h => hyn h.1)]

theorem freeList_freeAreaDel_self : freeList (freeAreaDel s k x) k = (freeList s k).erase x := by
  apply freeList_eq_of_linked (dseg_freeAreaDel_self hok hk hxl).linked
  rw [freeArea_freeAreaDel, if_pos rfl, List.length_erase_of_mem hxl, hok.area_len k hk]

theorem freeList_freeAreaDel_ne {j : Nat} (hj : j < MAX_ORDER) (hjk : j ≠ k) :
    freeList (freeAreaDel s k x) j = freeList s j := by
  have hother (y : Nat) (hy : y ∈ freeList s j) := links_freeAreaDel_of_mem_other hok hk hxl
    (fun h => hjk (freeList_order_unique hok hj hk hy h))
  apply freeList_eq_of_linked
  · rw [freeArea_freeAreaDel, if_neg hjk]
    exact (hok.area_dseg j hj).linked.frame fun y hy => (hother y hy).1
  · rw [freeArea_freeAreaDel, if_neg hjk, hok.area_len j hj]

theorem pcpList_freeAreaDel {c : Nat} (hc : c < MAX_CPU_NUM) : pcpList (freeAreaDel s k x) c = pcpList s c := by
  apply pcpList_eq_of_linked
  · rw [pcpPages_freeAreaDel]
    exact (hok.pcp_linked c hc).frame fun y hy => (links_freeAreaDel_of_mem_other hok hk hxl
      (fun h => freeList_not_mem_pcpList hok hk hc h hy)).1
  · rw [pcpPages_freeAreaDel, hok.pcp_len c hc]

theorem nodes_freeAreaDel : (nodes s).Perm (x :: nodes (freeAreaDel s k x)) := by
  simp only [nodes_def]
  rw [flatMap_range_congr fun c (hc : c < MAX_CPU_NUM) => pcpList_freeAreaDel hok hk hxl hc]
  refine (perm_flatMap_range_cons hk x ?_ ?_).append_right _
  · rw [freeList_freeAreaDel_self hok hk hxl]
    exact List.perm_cons_erase hxl
  · intro j hj hjk
    exact (freeList_freeAreaDel_ne hok hk hxl hj hjk).symm

theorem freeBlocks_freeAreaDel : (freeBlocks s).Perm ((x, k) :: freeBlocks (freeAreaDel s k x)) := by
  simp only [freeBlocks_def]
  have hpcp : (List.range MAX_CPU_NUM).flatMap (fun c => (pcpList (freeAreaDel s k x) c).map fun p => (p, 0)) =
      (List.range MAX_CPU_NUM).flatMap (fun c => (pcpList s c).map fun p => (p, 0)) :=
    flatMap_range_congr fun c (hc : c < MAX_CPU_NUM) => by rw [pcpList_freeAreaDel hok hk hxl hc]
  rw [← List.cons_append, hpcp]
  refine (perm_flatMap_range_cons hk (x, k) ?_ ?_).append_right _
  · have hperm := (List.perm_cons_erase hxl).map (fun b => (b, k))
    rwa [List.map_cons, ← freeList_freeAreaDel_self hok hk hxl] at hperm
  · intro j hj hjk
    rw [freeList_freeAreaDel_ne hok hk hxl hj hjk]

theorem listsOk_freeAreaDel : ListsOk (freeAreaDel s k x) where
  area_dseg j hj := by
    by_cases hjk : j = k
    · subst hjk
      rw [freeList_freeAreaDel_self hok hj hxl]
      exact dseg_freeAreaDel_self hok hj hxl
    · have hother (y : Nat) (hy : y ∈ freeList s j) := links_freeAreaDel_of_mem_other hok hk hxl
        (fun h => hjk (freeList_order_unique hok hj hk hy h))
      have hs := hok.area_dseg j hj
      rw [freeList_freeAreaDel_ne hok hk hxl hj hjk, freeArea_freeAreaDel, if_neg hjk]
      exact hs.frame (fun y hy => (hother y hy).1) (fun y hy _ => (hother y hy).2)
        (fun hne => ((hother _ (hs.head_mem hne)).2).trans (hs.prv_head hne))
  area_len j hj := by
    by_cases hjk : j = k
    · subst hjk
      rw [freeList_freeAreaDel_self hok hj hxl, freeArea_freeAreaDel, if_pos rfl, List.length_erase_of_mem hxl,
        hok.area_len j hj]
    · rw [freeList_freeAreaDel_ne hok hk hxl hj hjk, freeArea_freeAreaDel, if_neg hjk, hok.area_len j hj]
  pcp_linked c hc := by
    rw [pcpList_freeAreaDel hok hk hxl hc, pcpPages_freeAreaDel]
    exact (hok.pcp_linked c hc).frame fun y hy => (links_freeAreaDel_of_mem_other hok hk hxl
      (fun h => freeList_not_mem_pcpList hok hk hc h hy)).1
  pcp_len c hc := by rw [pcpList_freeAreaDel hok hk hxl hc, pcpPages_freeAreaDel, hok.pcp_len c hc]
  nodup := (List.nodup_cons.mp ((nodes_freeAreaDel hok hk hxl).nodup_iff.mp hok.nodup)).2

end Spec

end FreeAreaDel

/-! ## `free_area_pop` -/

section FreeAreaPop
variable {s : BuddyState} {k x : Nat} {t : BuddyState}

theorem freeAreaPop_eq_some :
    freeAreaPop s k = some (x, t) ↔
      (s.zone.freeArea k).headPfn = x ∧ x ≠ PAGE_LIST_NONE ∧ t = freeAreaDel s k x := by
  unfold freeAreaPop
  dsimp only
  split_ifs with h
  · simp only [false_iff]
    rintro ⟨rfl, hx, -⟩
    exact hx h
  · simp only [Option.some.injEq, Prod.mk.injEq]
    constructor
    · rintro ⟨rfl, rfl⟩
      exact ⟨rfl, h, rfl⟩
    · rintro ⟨rfl, -, rfl⟩
      exact ⟨rfl, rfl⟩

theorem freeAreaPop_eq_none_iff (hok : ListsOk s) (hk : k < MAX_ORDER) :
    freeAreaPop s k = none ↔ freeList s k = [] := by
  unfold freeAreaPop
  rw [(hok.area_dseg k hk).linked.eq_nil_iff]
  dsimp only
  split_ifs with h <;> simp [h]

/-- the page popped is the head of the list -/
theorem mem_freeList_of_freeAreaPop (hok : ListsOk s) (hk : k < MAX_ORDER) (h : freeAreaPop s k = some (x, t)) :
    x ∈ freeList s k := by
  obtain ⟨rfl, hx, -⟩ := (freeAreaPop_eq_some).mp h
  exact (hok.area_dseg k hk).head_mem hx

end FreeAreaPop

/-! ## `pcp_push_locked` -/

section PcpPush
variable {s : BuddyState} {c x : Nat}

theorem pageMaps_pcpPushLocked (q : Nat) :
    (pcpPushLocked s c x).pageMaps q =
      if q = x then { pageMarkPcp (s.pageMaps x) with nextPfn := (s.pcpPages c).headPfn } else s.pageMaps q := by
  unfold pcpPushLocked
  by_cases hq : q = x <;> simp [hq]

theorem pcpPages_pcpPushLocked (d : Nat) :
    (pcpPushLocked s c x).pcpPages d =
      if d = c then ⟨x, ((s.pcpPages c).count + 1) % 2 ^ 16⟩ else s.pcpPages d := by
  unfold pcpPushLocked
  by_cases hd : d = c <;> simp [hd]

@[simp] theorem zone_pcpPushLocked : (pcpPushLocked s c x).zone = s.zone := rfl
@[simp] theorem memorySize_pcpPushLocked : (pcpPushLocked s c x).memorySize = s.memorySize := rfl
@[simp] theorem cpuCount_pcpPushLocked : (pcpPushLocked s c x).cpuCount = s.cpuCount := rfl

theorem nextOf_pcpPushLocked (q : Nat) :
    nextOf (pcpPushLocked s c x) q = if q = x then (s.pcpPages c).headPfn else nextOf s q := by
  simp only [nextOf_def]
  rw [pageMaps_pcpPushLocked]
  split_ifs <;> rfl

theorem prevOf_pcpPushLocked (q : Nat) :
    prevOf (pcpPushLocked s c x) q = if q = x then PAGE_LIST_NONE else prevOf s q := by
  simp only [prevOf_def]
  rw [pageMaps_pcpPushLocked]
  split_ifs <;> rfl

theorem flags_pcpPushLocked (q : Nat) :
    ((pcpPushLocked s c x).pageMaps q).flags = if q = x then PAGE_FLAG_PCP else (s.pageMaps q).flags := by
  rw [pageMaps_pcpPushLocked]
  split_ifs <;> rfl

theorem order_pcpPushLocked (q : Nat) :
    ((pcpPushLocked s c x).pageMaps q).order = if q = x then 0 else (s.pageMaps q).order := by
  rw [pageMaps_pcpPushLocked]
  split_ifs <;> rfl

/-- the links of every listed page survive the push of an unlisted one -/
theorem links_pcpPushLocked_of_mem (hxn : x ∉ nodes s) {y : Nat} (hy : y ∈ nodes s) :
    nextOf (pcpPushLocked s c x) y = nextOf s y ∧ prevOf (pcpPushLocked s c x) y = prevOf s y := by
  have hyx : y ≠ x := by rintro rfl; exact hxn hy
  rw [nextOf_pcpPushLocked, prevOf_pcpPushLocked, if_neg hyx, if_neg hyx]
  exact ⟨rfl, rfl⟩

section Spec
variable (hok : ListsOk s) (hxn : x ∉ nodes s)
include hok hxn

theorem pcpList_pcpPushLocked_self (hc : c < MAX_CPU_NUM) (hx : x ≠ PAGE_LIST_NONE) (hcnt : (s.pcpPages c).count + 1 < 2 ^ 16) :
    pcpList (pcpPushLocked s c x) c = x :: pcpList s c := by
  apply pcpList_eq_of_linked
  · rw [pcpPages_pcpPushLocked, if_pos rfl]
    refine (hok.pcp_linked c hc).push hx ?_ ?_
    · rw [nextOf_pcpPushLocked, if_pos rfl]
    · intro y hy
      exact (links_pcpPushLocked_of_mem hxn (mem_nodes_of_pcpList hc hy)).1
  · rw [pcpPages_pcpPushLocked, if_pos rfl, List.length_cons, hok.pcp_len c hc, Nat.mod_eq_of_lt hcnt]

theorem pcpList_pcpPushLocked_ne {d : Nat} (hd : d < MAX_CPU_NUM) (hdc : d ≠ c) :
    pcpList (pcpPushLocked s c x) d = pcpList s d := by
  apply pcpList_eq_of_linked
  · rw [pcpPages_pcpPushLocked, if_neg hdc]
    exact (hok.pcp_linked d hd).frame fun y hy =>
      (links_pcpPushLocked_of_mem hxn (mem_nodes_of_pcpList hd hy)).1
  · rw [pcpPages_pcpPushLocked, if_neg hdc, hok.pcp_len d hd]

theorem freeList_pcpPushLocked {k : Nat} (hk : k < MAX_ORDER) :
    freeList (pcpPushLocked s c x) k = freeList s k := by
  apply freeList_eq_of_linked
  · exact (hok.area_dseg k hk).linked.frame fun y hy =>
      (links_pcpPushLocked_of_mem hxn (mem_nodes_of_freeList hk hy)).1
  · exact hok.area_len k hk

variable (hc : c < MAX_CPU_NUM) (hx : x ≠ PAGE_LIST_NONE) (hcnt : (s.pcpPages c).count + 1 < 2 ^ 16)
include hc hx hcnt

theorem nodes_pcpPushLocked : (nodes (pcpPushLocked s c x)).Perm (x :: nodes s) := by
  simp only [nodes_def]
  rw [flatMap_range_congr fun k (hk : k < MAX_ORDER) => freeList_pcpPushLocked hok hxn hk]
  refine ((perm_flatMap_range_cons hc x ?_ ?_).append_left _).trans List.perm_middle
  · rw [pcpList_pcpPushLocked_self hok hxn hc hx hcnt]
  · intro d hd hdc
    exact pcpList_pcpPushLocked_ne hok hxn hd hdc

theorem freeBlocks_pcpPushLocked : (freeBlocks (pcpPushLocked s c x)).Perm ((x, 0) :: freeBlocks s) := by
  simp only [freeBlocks_def]
  rw [flatMap_range_congr fun k (hk : k < MAX_ORDER) => by rw [freeList_pcpPushLocked hok hxn hk]]
  refine ((perm_flatMap_range_cons hc (x, 0) ?_ ?_).append_left _).trans List.perm_middle
  · rw [pcpList_pcpPushLocked_self hok hxn hc hx hcnt, List.map_cons]
  · intro d hd hdc
    rw [pcpList_pcpPushLocked_ne hok hxn hd hdc]

theorem listsOk_pcpPushLocked : ListsOk (pcpPushLocked s c x) where
  area_dseg k hk := by
    have hs := hok.area_dseg k hk
    have hlinks (y : Nat) (hy : y ∈ freeList s k) :
        nextOf (pcpPushLocked s c x) y = nextOf s y ∧ prevOf (pcpPushLocked s c x) y = prevOf s y :=
      links_pcpPushLocked_of_mem hxn (mem_nodes_of_freeList hk hy)
    rw [freeList_pcpPushLocked hok hxn hk, zone_pcpPushLocked]
    exact hs.frame (fun y hy => (hlinks y hy).1) (fun y hy _ => (hlinks y hy).2)
      (fun hne => ((hlinks _ (hs.head_mem hne)).2).trans (hs.prv_head hne))
  area_len k hk := by rw [freeList_pcpPushLocked hok hxn hk, zone_pcpPushLocked, hok.area_len k hk]
  pcp_linked d hd := by
    by_cases hdc : d = c
    · subst hdc
      rw [pcpList_pcpPushLocked_self hok hxn hd hx hcnt, pcpPages_pcpPushLocked, if_pos rfl]
      refine (hok.pcp_linked d hd).push hx ?_ ?_
      · rw [nextOf_pcpPushLocked, if_pos rfl]
      · intro y hy
        exact (links_pcpPushLocked_of_mem hxn (mem_nodes_of_pcpList hd hy)).1
    · rw [pcpList_pcpPushLocked_ne hok hxn hd hdc, pcpPages_pcpPushLocked, if_neg hdc]
      exact (hok.pcp_linked d hd).frame fun y hy =>
        (links_pcpPushLocked_of_mem hxn (mem_nodes_of_pcpList hd hy)).1
  pcp_len d hd := by
    by_cases hdc : d = c
    · subst hdc
      rw [pcpList_pcpPushLocked_self hok hxn hd hx hcnt, pcpPages_pcpPushLocked, if_pos rfl, List.length_cons,
        hok.pcp_len d hd, Nat.mod_eq_of_lt hcnt]
    · rw [pcpList_pcpPushLocked_ne hok hxn hd hdc, pcpPages_pcpPushLocked, if_neg hdc, hok.pcp_len d hd]
  nodup := (nodes_pcpPushLocked hok hxn hc hx hcnt).nodup_iff.mpr (List.nodup_cons.mpr ⟨hxn, hok.nodup⟩)

end Spec

end PcpPush

/-! ## `pcp_pop_locked` -/

section PcpPop
variable {s : BuddyState} {c x : Nat} {t : BuddyState}

/-- `pcp_pop_locked` as the counter update followed by the write to the page popped -/
theorem pcpPopLocked_eq_some :
    pcpPopLocked s c = some (x, t) ↔
      (s.pcpPages c).headPfn = x ∧ x ≠ PAGE_LIST_NONE ∧
        t = (s.setPcp c fun pcp => { pcp with headPfn := nextOf s x, count := pcp.count - 1 }).setPage x
          (pageMarkAllocated · 0) := by
  unfold pcpPopLocked
  dsimp only
  split_ifs with h
  · simp only [false_iff]
    rintro ⟨rfl, hx, -⟩
    exact hx h
  · simp only [Option.some.injEq, Prod.mk.injEq]
    constructor
    · rintro ⟨rfl, rfl⟩
      exact ⟨rfl, h, rfl⟩
    · rintro ⟨rfl, -, rfl⟩
      exact ⟨rfl, rfl⟩

theorem pcpPopLocked_eq_none_iff (hok : ListsOk s) (hc : c < MAX_CPU_NUM) :
    pcpPopLocked s c = none ↔ pcpList s c = [] := by
  unfold pcpPopLocked
  rw [(hok.pcp_linked c hc).eq_nil_iff]
  dsimp only
  split_ifs with h <;> simp [h]

section Fields
variable (hpop : pcpPopLocked s c = some (x, t))
include hpop

theorem nextOf_pcpPopLocked (q : Nat) : nextOf t q = if q = x then PAGE_LIST_NONE else nextOf s q := by
  obtain ⟨-, -, rfl⟩ := (pcpPopLocked_eq_some).mp hpop
  rw [nextOf_setPage, nextOf_setPcp]
  rfl

theorem prevOf_pcpPopLocked (q : Nat) : prevOf t q = if q = x then PAGE_LIST_NONE else prevOf s q := by
  obtain ⟨-, -, rfl⟩ := (pcpPopLocked_eq_some).mp hpop
  rw [prevOf_setPage, prevOf_setPcp]
  rfl

theorem pageMaps_pcpPopLocked (q : Nat) :
    t.pageMaps q = if q = x then pageMarkAllocated (s.pageMaps x) 0 else s.pageMaps q := by
  obtain ⟨-, -, rfl⟩ := (pcpPopLocked_eq_some).mp hpop
  by_cases hq : q = x <;> simp [hq]

theorem pcpPages_pcpPopLocked (d : Nat) :
    t.pcpPages d = if d = c then ⟨nextOf s x, (s.pcpPages c).count - 1⟩ else s.pcpPages d := by
  obtain ⟨-, -, rfl⟩ := (pcpPopLocked_eq_some).mp hpop
  by_cases hd : d = c <;> simp [hd]

theorem zone_pcpPopLocked : t.zone = s.zone := by
  obtain ⟨-, -, rfl⟩ := (pcpPopLocked_eq_some).mp hpop
  rfl

theorem memorySize_pcpPopLocked : t.memorySize = s.memorySize := by
  obtain ⟨-, -, rfl⟩ := (pcpPopLocked_eq_some).mp hpop
  rfl

/-- the links of every listed page other than the one popped survive -/
theorem links_pcpPopLocked_of_ne {y : Nat} (hyx : y ≠ x) : nextOf t y = nextOf s y ∧ prevOf t y = prevOf s y := by
  rw [nextOf_pcpPopLocked hpop, prevOf_pcpPopLocked hpop, if_neg hyx, if_neg hyx]
  exact ⟨rfl, rfl⟩

end Fields

section Spec
variable (hok : ListsOk s) (hc : c < MAX_CPU_NUM) (hpop : pcpPopLocked s c = some (x, t))
include hok hc hpop

theorem pcpList_pcpPopLocked_cons : ∃ rest, pcpList s c = x :: rest ∧
    Linked (nextOf s) PAGE_LIST_NONE (nextOf s x) rest := by
  obtain ⟨rfl, hx, -⟩ := (pcpPopLocked_eq_some).mp hpop
  have hl := hok.pcp_linked c hc
  obtain ⟨y, rest, hyr⟩ := List.exists_cons_of_ne_nil (fun h => hx ((hl.eq_nil_iff).mp h))
  rw [hyr] at hl
  obtain ⟨rfl, -, hrest⟩ := hl.cons_inv
  exact ⟨rest, hyr, hrest⟩

theorem mem_pcpList_of_pcpPopLocked : x ∈ pcpList s c := by
  obtain ⟨rest, hr, -⟩ := pcpList_pcpPopLocked_cons hok hc hpop
  rw [hr]
  exact List.mem_cons_self

theorem pcpList_pcpPopLocked_self : pcpList s c = x :: pcpList t c := by
  obtain ⟨rest, hr, hrest⟩ := pcpList_pcpPopLocked_cons hok hc hpop
  have hxr : x ∉ rest := (List.nodup_cons.mp (hr ▸ (hok.pcp_linked c hc).nodup)).1
  rw [hr, pcpList_eq_of_linked (l := rest)]
  · rw [pcpPages_pcpPopLocked hpop, if_pos rfl]
    exact hrest.frame fun y hy => (links_pcpPopLocked_of_ne hpop (by rintro rfl; exact hxr hy)).1
  · rw [pcpPages_pcpPopLocked hpop, if_pos rfl, ← hok.pcp_len c hc, hr, List.length_cons,
      Nat.add_sub_cancel]

theorem pcpList_pcpPopLocked_ne {d : Nat} (hd : d < MAX_CPU_NUM) (hdc : d ≠ c) : pcpList t d = pcpList s d := by
  have hxl := mem_pcpList_of_pcpPopLocked hok hc hpop
  apply pcpList_eq_of_linked
  · rw [pcpPages_pcpPopLocked hpop, if_neg hdc]
    exact (hok.pcp_linked d hd).frame fun y hy => (links_pcpPopLocked_of_ne hpop
      (by rintro rfl; exact hdc (pcpList_cpu_unique hok hd hc hy hxl))).1
  · rw [pcpPages_pcpPopLocked hpop, if_neg hdc, hok.pcp_len d hd]

theorem freeList_pcpPopLocked {k : Nat} (hk : k < MAX_ORDER) : freeList t k = freeList s k := by
  have hxl := mem_pcpList_of_pcpPopLocked hok hc hpop
  apply freeList_eq_of_linked
  · rw [zone_pcpPopLocked hpop]
    exact (hok.area_dseg k hk).linked.frame fun y hy => (links_pcpPopLocked_of_ne hpop
      (by rintro rfl; exact freeList_not_mem_pcpList hok hk hc hy hxl)).1
  · rw [zone_pcpPopLocked hpop, hok.area_len k hk]

theorem nodes_pcpPopLocked : (nodes s).Perm (x :: nodes t) := by
  simp only [nodes_def]
  rw [flatMap_range_congr fun k (hk : k < MAX_ORDER) => freeList_pcpPopLocked hok hc hpop hk]
  refine ((perm_flatMap_range_cons hc x ?_ ?_).append_left _).trans List.perm_middle
  · rw [pcpList_pcpPopLocked_self hok hc hpop]
  · intro d hd hdc
    exact (pcpList_pcpPopLocked_ne hok hc hpop hd hdc).symm

theorem freeBlocks_pcpPopLocked : (freeBlocks s).Perm ((x, 0) :: freeBlocks t) := by
  simp only [freeBlocks_def]
  have hfree : (List.range MAX_ORDER).flatMap (fun k => (freeList t k).map fun b => (b, k)) =
      (List.range MAX_ORDER).flatMap (fun k => (freeList s k).map fun b => (b, k)) :=
    flatMap_range_congr fun k (hk : k < MAX_ORDER) => by rw [freeList_pcpPopLocked hok hc hpop hk]
  rw [hfree]
  refine ((perm_flatMap_range_cons hc (x, 0) ?_ ?_).append_left _).trans List.perm_middle
  · rw [pcpList_pcpPopLocked_self hok hc hpop, List.map_cons]
  · intro d hd hdc
    rw [pcpList_pcpPopLocked_ne hok hc hpop hd hdc]

theorem listsOk_pcpPopLocked : ListsOk t where
  area_dseg k hk := by
    have hxl := mem_pcpList_of_pcpPopLocked hok hc hpop
    have hs := hok.area_dseg k hk
    have hlinks (y : Nat) (hy : y ∈ freeList s k) : nextOf t y = nextOf s y ∧ prevOf t y = prevOf s y :=
      links_pcpPopLocked_of_ne hpop (by rintro rfl; exact freeList_not_mem_pcpList hok hk hc hy hxl)
    rw [freeList_pcpPopLocked hok hc hpop hk, zone_pcpPopLocked hpop]
    exact hs.frame (fun y hy => (hlinks y hy).1) (fun y hy _ => (hlinks y hy).2)
      (fun hne => ((hlinks _ (hs.head_mem hne)).2).trans (hs.prv_head hne))
  area_len k hk := by rw [freeList_pcpPopLocked hok hc hpop hk, zone_pcpPopLocked hpop, hok.area_len k hk]
  pcp_linked d hd := by
    by_cases hdc : d = c
    · subst hdc
      obtain ⟨rest, hr, hrest⟩ := pcpList_pcpPopLocked_cons hok hd hpop
      have hxr : x ∉ rest := (List.nodup_cons.mp (hr ▸ (hok.pcp_linked d hd).nodup)).1
      have htl := pcpList_pcpPopLocked_self hok hd hpop
      rw [hr, List.cons.injEq] at htl
      rw [← htl.2, pcpPages_pcpPopLocked hpop, if_pos rfl]
      exact hrest.frame fun y hy => (links_pcpPopLocked_of_ne hpop (by rintro rfl; exact hxr hy)).1
    · have hxl := mem_pcpList_of_pcpPopLocked hok hc hpop
      rw [pcpList_pcpPopLocked_ne hok hc hpop hd hdc, pcpPages_pcpPopLocked hpop, if_neg hdc]
      exact (hok.pcp_linked d hd).frame fun y hy => (links_pcpPopLocked_of_ne hpop
        (by rintro rfl; exact hdc (pcpList_cpu_unique hok hd hc hy hxl))).1
  pcp_len d hd := by
    by_cases hdc : d = c
    · subst hdc
      have hlen := congrArg List.length (pcpList_pcpPopLocked_self hok hd hpop)
      rw [List.length_cons, hok.pcp_len d hd] at hlen
      rw [pcpPages_pcpPopLocked hpop, if_pos rfl, hlen, Nat.add_sub_cancel]
    · rw [pcpList_pcpPopLocked_ne hok hc hpop hd hdc, pcpPages_pcpPopLocked hpop, if_neg hdc,
        hok.pcp_len d hd]
  nodup := (List.nodup_cons.mp ((nodes_pcpPopLocked hok hc hpop).nodup_iff.mp hok.nodup)).2

end Spec

end PcpPop

/-! ## The free-page count -/

/-- the pages the lists hold: `2 ^ order` for each free block -/
def freePages (s : BuddyState) : Nat := ((freeBlocks s).map fun b => 2 ^ b.2).sum

theorem foldl_add_eq_add_sum (f : Nat → Nat) (l : List Nat) (i : Nat) :
    l.foldl (fun acc k => acc + f k) i = i + (l.map f).sum := by
  induction l generalizing i with
  | nil => simp
  | cons a l ih => rw [List.foldl_cons, ih, List.map_cons, List.sum_cons, Nat.add_assoc]

theorem orderToPages_eq (order : Nat) : orderToPages order = 2 ^ order := by
  rw [orderToPages, Nat.shiftLeft_eq, Nat.one_mul]

/-- `zone_free_pages` counts what the lists hold -/
theorem zoneFreePages_eq_freePages {s : BuddyState} (hok : ListsOk s) : zoneFreePages s = freePages s := by
  have hbuddy : (((List.range MAX_ORDER).flatMap (fun k => (freeList s k).map fun b => (b, k))).map
      (fun b => 2 ^ b.2)).sum =
      ((List.range MAX_ORDER).map fun k => (s.zone.freeArea k).nrFree * orderToPages k).sum := by
    rw [List.map_flatMap, List.flatMap_def, List.sum_flatten, List.map_map]
    congr 1
    apply List.map_congr_left
    intro k hk
    rw [Function.comp_apply, List.map_map, orderToPages_eq, ← hok.area_len k (List.mem_range.mp hk)]
    simp [Function.comp_def]
  have hpcp : (((List.range MAX_CPU_NUM).flatMap (fun c => (pcpList s c).map fun p => (p, 0))).map
      (fun b => 2 ^ b.2)).sum = ((List.range MAX_CPU_NUM).map fun c => (s.pcpPages c).count).sum := by
    rw [List.map_flatMap, List.flatMap_def, List.sum_flatten, List.map_map]
    congr 1
    apply List.map_congr_left
    intro c hc
    rw [Function.comp_apply, List.map_map, ← hok.pcp_len c (List.mem_range.mp hc)]
    simp [Function.comp_def]
  rw [zoneFreePages, zoneFreePagesLocked, foldl_add_eq_add_sum, foldl_add_eq_add_sum, Nat.zero_add, freePages,
    freeBlocks, List.map_append, List.sum_append, hbuddy, hpcp]

theorem freePages_perm {s t : BuddyState} {b : Nat × Nat} (h : (freeBlocks s).Perm (b :: freeBlocks t)) :
    freePages s = 2 ^ b.2 + freePages t := by
  rw [freePages, (h.map _).sum_eq, List.map_cons, List.sum_cons, freePages]

end Naos.Buddy
