/-
Allocation in the buddy model: the search and split loops of `buddy_alloc_order_locked`, the per-CPU refill of
`pcp_alloc_order0`, and the entry points `buddy_alloc_zone_pages` and `alloc_frames`.

Every successful path is a `Conserves` step that takes a block of the requested order into ownership: it was free
before (its frames leave `freeSet`) and it is marked allocated. A failed path changes nothing, and the buddy search
fails only when every list of the requested order or above is empty.

Results:
- `buddyAllocSearch_spec`, `buddyAllocSplit_spec`, `buddyAllocOrderLocked_spec`: the buddy path;
- `pcpBatchFill_spec`, `pcpPushAll_spec`, `pcpAllocOrder0_spec`: the per-CPU path, which keeps the counters at or
  below `PCP_HIGH`;
- `buddyAllocZonePages_spec`, `allocFrames_spec`: the entry points;
- `buddyFreeZone_isSome`: freeing a block just allocated, with its order, always gets past the checks of
  `buddy_free_zone`.
-/
import Naos.Mm.BuddyFree

namespace Naos.Buddy

open LinkedStore AlignedBlock BuddyState

/-! ## The buddy path -/

/-- the search loop pops from the first non-empty list of order `order` or above -/
theorem buddyAllocSearch_spec {s : BuddyState} (hinv : Inv s) :
    ∀ (fuel order : Nat), MAX_ORDER ≤ order + fuel →
      (buddyAllocSearch s order fuel = none → ∀ j, order ≤ j → j < MAX_ORDER → freeList s j = []) ∧
      (∀ o pfn t, buddyAllocSearch s order fuel = some (o, pfn, t) →
        order ≤ o ∧ o < MAX_ORDER ∧ pfn ∈ freeList s o ∧ t = freeAreaDel s o pfn)
  | 0, order, hfuel => ⟨fun _ j hj hjm => absurd hjm (by omega), fun _ _ _ h => absurd h (by simp [buddyAllocSearch])⟩
  | fuel + 1, order, hfuel => by
    rw [buddyAllocSearch]
    split_ifs with hord
    · rcases hpop : freeAreaPop s order with _ | ⟨pfn, t⟩
      · have hempty := (freeAreaPop_eq_none_iff hinv.lists hord).mp hpop
        obtain ⟨hnone, hsome⟩ := buddyAllocSearch_spec hinv fuel (order + 1) (by omega)
        refine ⟨fun h j hj hjm => ?_, fun o p t h => ?_⟩
        · rcases Nat.eq_or_lt_of_le hj with rfl | hj
          · exact hempty
          · exact hnone h j hj hjm
        · obtain ⟨h₁, h₂⟩ := hsome o p t h
          exact ⟨by omega, h₂⟩
      · refine ⟨fun h => absurd h (by simp), fun o p t' h => ?_⟩
        simp only [Option.some.injEq, Prod.mk.injEq] at h
        obtain ⟨rfl, rfl, rfl⟩ := h
        obtain ⟨-, -, rfl⟩ := (freeAreaPop_eq_some).mp hpop
        exact ⟨le_rfl, hord, mem_freeList_of_freeAreaPop hinv.lists hord hpop, rfl⟩
    · exact ⟨fun _ j hj hjm => absurd hjm (by omega), fun _ _ _ h => absurd h (by simp)⟩

/-- one pass of the split loop: the upper half goes on the list of `order`, whose buddy, the lower half, stays owned
and is marked allocated; no other list changes -/
theorem splitStep_spec {s : BuddyState} {pfn order : Nat} {owned : List (Nat × Nat)} (hinv : Inv s)
    (hown : OwnedOk s ((pfn, order + 1) :: owned)) :
    Conserves s ((pfn, order + 1) :: owned)
        ((freeAreaAdd s order (pfn + 2 ^ order)).setPage pfn (pageMarkAllocated · order)) ((pfn, order) :: owned) ∧
      (∀ j < MAX_ORDER, freeList ((freeAreaAdd s order (pfn + 2 ^ order)).setPage pfn (pageMarkAllocated · order)) j =
        if j = order then (pfn + 2 ^ order) :: freeList s order else freeList s j) ∧
      ∀ c < MAX_CPU_NUM,
        pcpList ((freeAreaAdd s order (pfn + 2 ^ order)).setPage pfn (pageMarkAllocated · order)) c = pcpList s c := by
  have hhalves := (Conserves.refl hinv hown).split
  have haligned := (hown.blocks _ List.mem_cons_self).aligned
  have hco : order + 1 < MAX_ORDER → (pfn + 2 ^ order) ^^^ 2 ^ order ∉ freeList s order := by
    intro _ hm
    rw [xor_two_pow_of_dvd_succ haligned] at hm
    exact hhalves.own.not_mem_nodes (List.mem_cons_of_mem _ List.mem_cons_self) (mem_self (pfn, order))
      (mem_nodes_of_freeList (hhalves.own.blocks _ List.mem_cons_self).order_lt hm)
  have hgive := hhalves.trans (conserves_freeAreaAdd hinv hhalves.own hco)
  have hpfn : pfn ∉ nodes (freeAreaAdd s order (pfn + 2 ^ order)) :=
    hgive.own.not_mem_nodes List.mem_cons_self (mem_self (pfn, order))
  have hagree := linksAgree_setPage (pageMarkAllocated · order) hpfn
  refine ⟨hgive.trans (conserves_setPage_owned (pageMarkAllocated · order) hgive.inv hgive.own
    List.mem_cons_self (mem_self (pfn, order)) BitVec.zero_and), fun j hj => ?_, fun c hc => ?_⟩
  · rw [hagree.freeList_eq hgive.inv.lists hj, freeList_freeAreaAdd hinv hhalves.own hj]
  · have hk := order_lt_of_owned hhalves.own
    rw [hagree.pcpList_eq hgive.inv.lists hc, pcpList_freeAreaAdd hinv.lists hk (ne_none_of_owned hinv hhalves.own)
      (not_mem_nodes_of_owned hhalves.own) hc]

/-- the split loop hands the upper half back at each order down to the target -/
theorem buddyAllocSplit_spec {pfn target : Nat} {owned : List (Nat × Nat)} :
    ∀ (order : Nat) (s : BuddyState), Inv s → OwnedOk s ((pfn, order) :: owned) → target ≤ order →
      Conserves s ((pfn, order) :: owned) (buddyAllocSplit s pfn target order) ((pfn, target) :: owned) ∧
        (buddyAllocSplit s pfn target order).pcpPages = s.pcpPages
  | 0, s, hinv, hown, ht => by
    obtain rfl : target = 0 := by omega
    exact ⟨Conserves.refl hinv hown, rfl⟩
  | order + 1, s, hinv, hown, ht => by
    rw [buddyAllocSplit]
    split_ifs with hgt
    · have hmark := (splitStep_spec hinv hown).1
      rw [orderToPages_eq]
      obtain ⟨hrest, hpcp⟩ := buddyAllocSplit_spec order _ hmark.inv hmark.own (Nat.lt_succ_iff.mp hgt)
      refine ⟨hmark.trans hrest, ?_⟩
      rw [hpcp, setPage_pcpPages, pcpPages_freeAreaAdd]
    · obtain rfl : target = order + 1 := by omega
      exact ⟨Conserves.refl hinv hown, rfl⟩

/-- `buddy_alloc_order_locked`: either every list of the target order or above is empty and nothing changes, or a
block of the target order is taken into ownership, marked allocated -/
theorem buddyAllocOrderLocked_spec {s : BuddyState} {target : Nat} {owned : List (Nat × Nat)} (hinv : Inv s)
    (hown : OwnedOk s owned) (htarget : target < MAX_ORDER) {addr : Nat} {t : BuddyState}
    (hr : buddyAllocOrderLocked s target = (addr, t)) :
    (addr = 0 ∧ t = s ∧ ∀ j, target ≤ j → j < MAX_ORDER → freeList s j = []) ∨
      ∃ pfn, addr = pfnToPhys pfn ∧ Conserves s owned t ((pfn, target) :: owned) ∧ t.pcpPages = s.pcpPages ∧
        (t.pageMaps pfn).flags = 0 ∧ (t.pageMaps pfn).order = target ∧ (t.pageMaps pfn).refcount = 0 := by
  obtain ⟨hnone, hsome⟩ := buddyAllocSearch_spec hinv (MAX_ORDER - target) target (by omega)
  unfold buddyAllocOrderLocked at hr
  rcases hsearch : buddyAllocSearch s target (MAX_ORDER - target) with _ | ⟨o, pfn, t₁⟩
  · rw [hsearch] at hr
    simp only [Prod.mk.injEq] at hr
    obtain ⟨rfl, rfl⟩ := hr
    exact .inl ⟨rfl, rfl, hnone hsearch⟩
  · rw [hsearch] at hr
    simp only [Prod.mk.injEq] at hr
    obtain ⟨rfl, rfl⟩ := hr
    obtain ⟨hle, ho, hmem, rfl⟩ := hsome o pfn t₁ hsearch
    have htake := conserves_freeAreaDel hinv hown ho hmem
    obtain ⟨hsplit, hpcp⟩ := buddyAllocSplit_spec o _ htake.inv htake.own hle
    have hcons := htake.trans hsplit
    refine .inr ⟨pfn, rfl, hcons.trans (conserves_setPage_owned _ hcons.inv hcons.own List.mem_cons_self
      (mem_self (pfn, target)) BitVec.zero_and), ?_, ?_, ?_, ?_⟩
    · rw [setPage_pcpPages, hpcp, pcpPages_freeAreaDel]
    all_goals rw [setPage_pageMaps_self]; rfl

/-! ## The per-CPU path -/

/-- the batch loop takes up to `fuel` pages from the buddy lists into ownership -/
theorem pcpBatchFill_spec :
    ∀ (fuel : Nat) (s : BuddyState) (owned : List (Nat × Nat)), Inv s → OwnedOk s owned →
      ∀ batch t, pcpBatchFill s fuel = (batch, t) →
        Conserves s owned t (batch.map (·, 0) ++ owned) ∧ t.pcpPages = s.pcpPages ∧ batch.length ≤ fuel ∧
          (batch = [] → t = s)
  | 0, s, owned, hinv, hown, batch, t, hr => by
    simp only [pcpBatchFill, Prod.mk.injEq] at hr
    obtain ⟨rfl, rfl⟩ := hr
    exact ⟨Conserves.refl hinv hown, rfl, le_rfl, fun _ => rfl⟩
  | fuel + 1, s, owned, hinv, hown, batch, t, hr => by
    unfold pcpBatchFill at hr
    rcases halloc : buddyAllocOrderLocked s 0 with ⟨phys, t₁⟩
    rw [halloc] at hr
    dsimp only at hr
    rcases buddyAllocOrderLocked_spec hinv hown (by decide) halloc with ⟨rfl, rfl, -⟩ | ⟨pfn, rfl, hcons, hpcp, -⟩
    · rw [if_pos rfl] at hr
      simp only [Prod.mk.injEq] at hr
      obtain ⟨rfl, rfl⟩ := hr
      exact ⟨Conserves.refl hinv hown, rfl, Nat.zero_le _, fun _ => rfl⟩
    · have hpos := (hcons.own.blocks _ List.mem_cons_self).pos
      rw [if_neg (pfnToPhys_ne_zero hpos)] at hr
      rcases hrest : pcpBatchFill t₁ fuel with ⟨rest, t₂⟩
      rw [hrest] at hr
      simp only [Prod.mk.injEq] at hr
      obtain ⟨rfl, rfl⟩ := hr
      obtain ⟨hcons', hpcp', hlen, -⟩ := pcpBatchFill_spec fuel t₁ _ hcons.inv hcons.own rest t₂ hrest
      refine ⟨(hcons.trans hcons').perm ?_, hpcp'.trans hpcp, ?_, fun h => absurd h (by simp)⟩
      · rw [physToPfn_pfnToPhys, List.map_cons]
        exact List.perm_middle
      · rw [List.length_cons]
        omega

/-- pushing owned pages onto one per-CPU list, one by one -/
theorem pcpPushAll_spec {cpu : Nat} {owned : List (Nat × Nat)} (hc : cpu < MAX_CPU_NUM) :
    ∀ (ps : List Nat) (s : BuddyState), Inv s → OwnedOk s (ps.map (·, 0) ++ owned) →
      (s.pcpPages cpu).count + ps.length < 2 ^ 16 →
      Conserves s (ps.map (·, 0) ++ owned) (ps.foldl (fun s pfn => pcpPushLocked s cpu pfn) s) owned ∧
        ((ps.foldl (fun s pfn => pcpPushLocked s cpu pfn) s).pcpPages cpu).count =
          (s.pcpPages cpu).count + ps.length ∧
        ∀ d, d ≠ cpu → (ps.foldl (fun s pfn => pcpPushLocked s cpu pfn) s).pcpPages d = s.pcpPages d
  | [], s, hinv, hown, _ => ⟨Conserves.refl hinv hown, rfl, fun _ _ => rfl⟩
  | p :: ps, s, hinv, hown, hcnt => by
    rw [List.foldl_cons]
    rw [List.length_cons] at hcnt
    have hpush := conserves_pcpPushLocked hinv hown hc (by omega)
    have hcount : ((pcpPushLocked s cpu p).pcpPages cpu).count = (s.pcpPages cpu).count + 1 := by
      rw [pcpPages_pcpPushLocked, if_pos rfl, Nat.mod_eq_of_lt (by omega)]
    obtain ⟨hrest, hcnt', hother⟩ := pcpPushAll_spec hc ps _ hpush.inv hpush.own (by omega)
    refine ⟨hpush.trans hrest, by rw [hcnt', hcount, List.length_cons]; omega, fun d hd => ?_⟩
    rw [hother d hd, pcpPages_pcpPushLocked, if_neg hd]

/-- `pcp_alloc_order0`: a page from the current CPU's list, or from a refill of that list out of the buddy lists;
when it returns 0 nothing changed -/
theorem pcpAllocOrder0_spec {s : BuddyState} {taskCpu : Option Nat} {owned : List (Nat × Nat)} (hinv : Inv s)
    (hbound : PcpBounded s) (hown : OwnedOk s owned) {addr : Nat} {t : BuddyState}
    (hr : pcpAllocOrder0 s taskCpu = (addr, t)) :
    (addr = 0 ∧ t = s) ∨
      ∃ pfn, addr = pfnToPhys pfn ∧ Conserves s owned t ((pfn, 0) :: owned) ∧ PcpBounded t ∧
        (t.pageMaps pfn).flags = 0 ∧ (t.pageMaps pfn).order = 0 ∧ (t.pageMaps pfn).refcount = 0 := by
  unfold pcpAllocOrder0 at hr
  rcases hcpu : pcpCurrentCpu s taskCpu with _ | cpu
  · rw [hcpu] at hr
    simp only [Prod.mk.injEq] at hr
    exact .inl ⟨hr.1.symm, hr.2.symm⟩
  rw [hcpu] at hr
  dsimp only at hr
  have hc := pcpCurrentCpu_lt hcpu
  rcases hpop : pcpPopLocked s cpu with _ | ⟨x, t₁⟩
  swap
  · rw [hpop] at hr
    simp only [Prod.mk.injEq] at hr
    obtain ⟨rfl, rfl⟩ := hr
    have hcons := conserves_pcpPopLocked hinv hown hc hpop
    refine .inr ⟨x, rfl, hcons, fun d hd => ?_, ?_⟩
    · rw [pcpPages_pcpPopLocked hpop]
      split_ifs with hdc
      · subst hdc
        exact Nat.le_trans (Nat.sub_le _ _) (hbound d hd)
      · exact hbound d hd
    · rw [pageMaps_pcpPopLocked hpop, if_pos rfl]
      exact ⟨rfl, rfl, rfl⟩
  rw [hpop] at hr
  dsimp only at hr
  have hcount : (s.pcpPages cpu).count = 0 := by
    rw [← hinv.lists.pcp_len cpu hc, (pcpPopLocked_eq_none_iff hinv.lists hc).mp hpop, List.length_nil]
  rcases hfill : pcpBatchFill s PCP_BATCH with ⟨batch, t₁⟩
  rw [hfill] at hr
  dsimp only at hr
  obtain ⟨hcons, hpcp, hlen, hnil⟩ := pcpBatchFill_spec PCP_BATCH s owned hinv hown batch t₁ hfill
  rcases hrev : batch.reverse with _ | ⟨page, rest⟩
  · rw [hrev] at hr
    simp only [Prod.mk.injEq] at hr
    obtain ⟨rfl, rfl⟩ := hr
    exact .inl ⟨rfl, hnil (List.reverse_eq_nil_iff.mp hrev)⟩
  rw [hrev] at hr
  simp only [Prod.mk.injEq] at hr
  obtain ⟨rfl, rfl⟩ := hr
  have hperm : (batch.map (·, 0) ++ owned).Perm (rest.map (·, 0) ++ (page, 0) :: owned) := by
    have : batch.map (·, 0) = (page :: rest).reverse.map (·, 0) := by rw [← hrev, List.reverse_reverse]
    rw [this, List.map_reverse, List.map_cons]
    exact ((List.reverse_perm _).append_right _).trans (List.perm_middle).symm
  have hcons₁ := hcons.perm hperm
  have hrestlen : rest.length < PCP_BATCH := by
    have := congrArg List.length hrev
    rw [List.length_reverse, List.length_cons] at this
    omega
  obtain ⟨hpush, hcnt, hother⟩ := pcpPushAll_spec hc rest t₁ hcons₁.inv hcons₁.own
    (by rw [hpcp, hcount]; simp only [PCP_BATCH] at hrestlen; omega)
  have hcons₂ := hcons₁.trans hpush
  refine .inr ⟨page, rfl, hcons₂.trans (conserves_setPage_owned _ hcons₂.inv hcons₂.own List.mem_cons_self
    (mem_self (page, 0)) BitVec.zero_and), fun d hd => ?_, ?_⟩
  · rw [setPage_pcpPages]
    by_cases hdc : d = cpu
    · subst hdc
      rw [hcnt, hpcp, hcount]
      simp only [PCP_BATCH, PCP_HIGH] at hrestlen ⊢
      omega
    · rw [hother d hdc, hpcp]
      exact hbound d hd
  · rw [setPage_pageMaps_self]
    exact ⟨rfl, rfl, rfl⟩

/-! ## The entry points -/

/-- `buddy_alloc_zone_pages` for a count whose order is below `MAX_ORDER` -/
theorem buddyAllocZonePages_spec {s : BuddyState} {taskCpu : Option Nat} {count order pages : Nat}
    {owned : List (Nat × Nat)} (hinv : Inv s) (hbound : PcpBounded s) (hown : OwnedOk s owned)
    (horder : countToOrder count = some (order, pages)) {addr : Nat} {n : Option Nat} {t : BuddyState}
    (hr : buddyAllocZonePages s taskCpu count = (addr, n, t)) :
    (addr = 0 ∧ n = none ∧ t = s ∧ ∀ j, order ≤ j → j < MAX_ORDER → freeList s j = []) ∨
      ∃ pfn, addr = pfnToPhys pfn ∧ n = some pages ∧ Conserves s owned t ((pfn, order) :: owned) ∧
        PcpBounded t ∧ (t.pageMaps pfn).flags = 0 := by
  obtain ⟨hpos, -, hord, -⟩ := countToOrder_eq_some horder
  unfold buddyAllocZonePages at hr
  rw [if_neg (Nat.pos_iff_ne_zero.mp hpos), horder] at hr
  dsimp only at hr
  rcases hpcp : (if order = 0 then pcpAllocOrder0 s taskCpu else (0, s)) with ⟨a₁, t₁⟩
  have hfirst : (a₁ = 0 ∧ t₁ = s) ∨ ∃ pfn, a₁ = pfnToPhys pfn ∧ Conserves s owned t₁ ((pfn, order) :: owned) ∧
      PcpBounded t₁ ∧ (t₁.pageMaps pfn).flags = 0 := by
    split_ifs at hpcp with h0
    · subst h0
      rcases pcpAllocOrder0_spec hinv hbound hown hpcp with h | ⟨pfn, h₁, h₂, h₃, h₄, -⟩
      · exact .inl h
      · exact .inr ⟨pfn, h₁, h₂, h₃, h₄⟩
    · simp only [Prod.mk.injEq] at hpcp
      exact .inl ⟨hpcp.1.symm, hpcp.2.symm⟩
  rw [hpcp] at hr
  dsimp only at hr
  rcases hfirst with ⟨rfl, rfl⟩ | ⟨pfn, rfl, hcons, hbound₁, hflags⟩
  · rw [if_neg (by simp)] at hr
    rcases hbuddy : buddyAllocOrderLocked t₁ order with ⟨a₂, t₂⟩
    rw [hbuddy] at hr
    simp only [Prod.mk.injEq] at hr
    obtain ⟨rfl, rfl, rfl⟩ := hr
    rcases buddyAllocOrderLocked_spec hinv hown hord hbuddy with ⟨rfl, rfl, hempty⟩ | ⟨pfn, rfl, hcons, hpcp₂, hfl, -⟩
    · exact .inl ⟨rfl, by simp, rfl, hempty⟩
    · have hpos' := (hcons.own.blocks _ List.mem_cons_self).pos
      refine .inr ⟨pfn, rfl, by rw [if_pos (pfnToPhys_ne_zero hpos')], hcons, fun c hc => ?_, hfl⟩
      rw [hpcp₂]
      exact hbound c hc
  · have hpos' := (hcons.own.blocks _ List.mem_cons_self).pos
    rw [if_pos (pfnToPhys_ne_zero hpos')] at hr
    simp only [Prod.mk.injEq] at hr
    obtain ⟨rfl, rfl, rfl⟩ := hr
    exact .inr ⟨pfn, rfl, rfl, hcons, hbound₁, hflags⟩

/-- the reference loop of `alloc_frames` over the frames of an owned block -/
theorem refPages_spec {pfn order : Nat} {owned : List (Nat × Nat)} :
    ∀ (l : List Nat) (s : BuddyState), (∀ off ∈ l, off < 2 ^ order) → Inv s → OwnedOk s ((pfn, order) :: owned) →
      let t := l.foldl (fun s offset =>
        match physToPage s (pfnToPhys pfn + offset * PAGE_SIZE) with
        | none => s
        | some q => s.setPage q fun page => pageRef (pageMarkAllocated page 0)) s
      Conserves s ((pfn, order) :: owned) t ((pfn, order) :: owned) ∧ t.pcpPages = s.pcpPages
  | [], s, _, hinv, hown => ⟨Conserves.refl hinv hown, rfl⟩
  | off :: l, s, hoff, hinv, hown => by
    dsimp only
    rw [List.foldl_cons]
    rcases hq : physToPage s (pfnToPhys pfn + off * PAGE_SIZE) with _ | q
    · exact refPages_spec l s (fun o ho => hoff o (List.mem_cons_of_mem _ ho)) hinv hown
    · have hqb : Mem q (pfn, order) := by
        rw [physToPage_eq_some hq]
        have := hoff off List.mem_cons_self
        simp only [Mem, physToPfn, pfnToPhys, PAGE_SIZE]
        omega
      have hstep := conserves_setPage_owned (fun page => pageRef (pageMarkAllocated page 0)) hinv hown
        List.mem_cons_self hqb BitVec.zero_and
      obtain ⟨hrest, hpcp⟩ := refPages_spec l _ (fun o ho => hoff o (List.mem_cons_of_mem _ ho)) hstep.inv
        hstep.own
      exact ⟨hstep.trans hrest, hpcp⟩

/-- `alloc_frames`: `none` is the out-of-memory assertion, which stops the kernel with the state unchanged -/
theorem allocFrames_spec {s : BuddyState} {taskCpu : Option Nat} {count order pages : Nat}
    {owned : List (Nat × Nat)} (hinv : Inv s) (hbound : PcpBounded s) (hown : OwnedOk s owned)
    (horder : countToOrder count = some (order, pages)) {addr : Nat} {t : BuddyState}
    (hr : allocFrames s taskCpu count = some (addr, t)) :
    ∃ pfn, addr = pfnToPhys pfn ∧ Conserves s owned t ((pfn, order) :: owned) ∧ PcpBounded t := by
  obtain ⟨hpos, -, -, rfl⟩ := countToOrder_eq_some horder
  unfold allocFrames at hr
  rw [if_neg (Nat.pos_iff_ne_zero.mp hpos), horder] at hr
  dsimp only at hr
  rcases hzone : buddyAllocZonePages s taskCpu count with ⟨a, n, t₁⟩
  have hzone' : buddyAllocZone s taskCpu count = (a, t₁) := by rw [buddyAllocZone, hzone]
  rw [hzone'] at hr
  dsimp only at hr
  rcases buddyAllocZonePages_spec hinv hbound hown horder hzone with ⟨rfl, -⟩ | ⟨pfn, rfl, -, hcons, hbound₁, -⟩
  · exact absurd hr (by simp)
  have hpos' := (hcons.own.blocks _ List.mem_cons_self).pos
  rw [if_neg (pfnToPhys_ne_zero hpos')] at hr
  simp only [Option.some.injEq, Prod.mk.injEq] at hr
  obtain ⟨rfl, rfl⟩ := hr
  refine ⟨pfn, rfl, ?_⟩
  obtain ⟨href, hpcp⟩ := refPages_spec (List.range (2 ^ order)) t₁ (fun o ho => List.mem_range.mp ho) hcons.inv
    hcons.own
  have hcons₂ := hcons.trans href
  have hbound₂ : PcpBounded (List.foldl _ t₁ _) := fun c hc => hpcp ▸ hbound₁ c hc
  rcases hhead : physToPage (List.foldl (fun s offset =>
      match physToPage s (pfnToPhys pfn + offset * PAGE_SIZE) with
      | none => s
      | some q => s.setPage q fun page => pageRef (pageMarkAllocated page 0)) t₁ (List.range (2 ^ order)))
      (pfnToPhys pfn) with _ | q
  · exact ⟨hcons₂, hbound₂⟩
  · have hq : q = pfn := by rw [physToPage_eq_some hhead, physToPfn_pfnToPhys]
    subst hq
    have hout := hcons₂.own.not_mem_nodes List.mem_cons_self (mem_self (q, order))
    refine ⟨hcons₂.trans (conserves_setPage _ hcons₂.inv hcons₂.own hout ?_), fun c hc => ?_⟩
    · exact hcons₂.inv.flags_of_not_mem (not_mem_freeList_of_not_mem_nodes hout)
    · rw [setPage_pcpPages]
      exact hbound₂ c hc

theorem allocFrames_eq_none_or {s : BuddyState} {taskCpu : Option Nat} {count addr : Nat} {t : BuddyState}
    (hr : allocFrames s taskCpu count = some (addr, t)) (h0 : addr = 0) : t = s := by
  unfold allocFrames at hr
  split_ifs at hr
  · simp only [Option.some.injEq, Prod.mk.injEq] at hr
    exact hr.2.symm
  rcases horder : countToOrder count with _ | ⟨order, pages⟩
  · rw [horder] at hr
    simp only [Option.some.injEq, Prod.mk.injEq] at hr
    exact hr.2.symm
  rw [horder] at hr
  dsimp only at hr
  split_ifs at hr with ha
  simp only [Option.some.injEq, Prod.mk.injEq] at hr
  exact absurd (hr.1.trans h0) ha

/-! ## Freeing a block just allocated -/

/-- no free block of any order holds a frame that is not free -/
theorem blockAlreadyFree_eq_false {s : BuddyState} {pfn order : Nat} {owned : List (Nat × Nat)} (hinv : Inv s)
    (hown : OwnedOk s ((pfn, order) :: owned)) : blockAlreadyFree s pfn order = false := by
  have hle : pfn + 2 ^ order ≤ s.zone.zoneEndPfn := (hown.blocks _ List.mem_cons_self).le_hi
  have hend : (pfn + orderToPages order) % 2 ^ 64 = pfn + 2 ^ order := by
    have h1 := hinv.zone_end
    have h2 := hinv.memory_lt
    simp only [PAGE_SIZE] at h1
    have hlt : pfn + 2 ^ order < 2 ^ 64 := by omega
    rw [orderToPages_eq, Nat.mod_eq_of_lt hlt]
  unfold blockAlreadyFree
  dsimp only
  rw [hend, if_neg (Nat.not_lt.mpr (Nat.le_add_right _ _)), List.any_eq_false]
  intro f hf hfree
  simp only [orderToPages_eq, Bool.and_eq_true] at hfree
  obtain ⟨-, hbuddy⟩ := hfree
  have hfo : f < MAX_ORDER := by
    have := List.mem_range'_1.mp hf
    omega
  have hm := (hinv.pageIsBuddy_iff hfo).mp hbuddy
  have hq : Mem pfn (pfn / 2 ^ f * 2 ^ f, f) := by
    refine ⟨Nat.div_mul_le_self _ _, ?_⟩
    have := Nat.lt_div_mul_add (a := pfn) (Nat.two_pow_pos f)
    dsimp only
    omega
  exact hown.not_mem_freeSet List.mem_cons_self (mem_self (pfn, order))
    ⟨_, mem_freeBlocks_of_freeList hfo hm, hq⟩

/-- freeing a block just allocated, with its order, gets past every check of `buddy_free_zone` -/
theorem buddyFreeZone_isSome {s : BuddyState} {taskCpu : Option Nat} {pfn order : Nat}
    {owned : List (Nat × Nat)} (hinv : Inv s) (hown : OwnedOk s ((pfn, order) :: owned))
    (hflags : (s.pageMaps pfn).flags = 0) : ∃ t, buddyFreeZone s taskCpu (pfnToPhys pfn) order = some t := by
  unfold buddyFreeZone
  rw [hinv.zoneBlockValid_of_blockOk (hown.blocks _ List.mem_cons_self),
    hinv.physToPage_pfnToPhys (lt_zoneEndPfn_of_owned hown), physToPfn_pfnToPhys,
    blockAlreadyFree_eq_false hinv hown]
  dsimp only
  rw [hflags, if_neg (by decide), if_neg (by decide), if_neg (by decide)]
  rcases (if order = 0 then pcpFreeOrder0 s taskCpu pfn else none) with _ | t
  · exact ⟨_, rfl⟩
  · exact ⟨t, rfl⟩

end Naos.Buddy
