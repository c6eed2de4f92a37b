/-
Freeing in the buddy model: the merge loop of `buddy_free_order_locked`, the per-CPU free path with its drain, the
entry points `buddy_free_zone`, `buddy_free_zone_claimed` and `free_frames`, and the seeding loop of
`add_memory_region`.

Every path is a `Conserves` step that hands an owned block back to the lists: the invariant holds after it, the
block's frames join `freeSet`, and its `2 ^ order` pages join `freePages`. The loops are proved the way they run:
one lemma for a pass, and an induction on the fuel (the loop's own bound) for the whole loop.

Results:
- `buddyFreeMerge_spec`: the merge loop keeps `MergeInv` and stops only where the pending block's buddy is off its
  list (or at the top order);
- `buddyFreeOrderLocked_spec`: the block put on a list holds the block freed;
- `pcpDrain_spec`, `freeDrained_spec`, `pcpFreeOrder0_spec`: the per-CPU path, which keeps the counters at or below
  `PCP_HIGH`;
- `buddyFreeZone_spec`, `buddyFreeZoneClaimed_spec`, `freeFramesCommon_spec`: the entry points, for an owned block;
- `addMemoryLoop_eq_foldl`, `seedBlocks_tile`, `seedStep_foldl`: the seeding loop is the fold of one free over
  aligned blocks that tile its range;
- `addMemoryLoop_spec`, `addMemoryRegion_spec`: seeding frees exactly the frames of the clipped region.
-/
import Naos.Mm.BuddyInv

namespace Naos.Buddy

open LinkedStore AlignedBlock BuddyState

/-! ## Block sizes -/

/-- the `while (pages < count)` loop doubles up to the first order whose block holds `count` pages -/
theorem countToOrderLoop_eq {count : Nat} (hcount : 0 < count) :
    ∀ fuel order, order < MAX_ORDER → MAX_ORDER ≤ order + fuel → order ≤ Nat.clog 2 count →
      countToOrderLoop count order (2 ^ order) fuel =
        if Nat.clog 2 count < MAX_ORDER then some (Nat.clog 2 count, 2 ^ Nat.clog 2 count) else none
  | 0, order, hord, hfuel, _ => absurd hfuel (by omega)
  | fuel + 1, order, hord, hfuel, hle => by
    have hclog (m : Nat) : Nat.clog 2 count ≤ m ↔ count ≤ 2 ^ m := Nat.clog_le_iff_le_pow (by decide)
    rw [countToOrderLoop]
    by_cases hlt : 2 ^ order < count
    · have hord' : order < Nat.clog 2 count := by
        by_contra h
        exact absurd ((hclog order).mp (by omega)) (by omega)
      rw [if_pos hlt]
      by_cases hnext : order + 1 < MAX_ORDER
      · rw [if_pos (by simp [orderValid, hnext]), Nat.shiftLeft_eq, pow_one, ← pow_succ]
        exact countToOrderLoop_eq hcount fuel (order + 1) hnext (by omega) hord'
      · rw [if_neg (by simp [orderValid, hnext]), if_neg (by omega)]
    · have heq : Nat.clog 2 count = order := le_antisymm ((hclog order).mpr (by omega)) hle
      rw [if_neg hlt, heq, if_pos hord]

/-- `count_to_order`: the least order whose block holds `count` pages, if it is below `MAX_ORDER` -/
theorem countToOrder_eq (count : Nat) :
    countToOrder count =
      if count = 0 ∨ MAX_ORDER ≤ Nat.clog 2 count then none else some (Nat.clog 2 count, 2 ^ Nat.clog 2 count) := by
  unfold countToOrder
  by_cases h0 : count = 0
  · simp [h0]
  · rw [if_neg h0, ← pow_zero 2, countToOrderLoop_eq (Nat.pos_of_ne_zero h0) MAX_ORDER 0 (by decide) le_rfl
      (Nat.zero_le _)]
    by_cases hm : MAX_ORDER ≤ Nat.clog 2 count
    · simp [hm]
    · simp [h0, hm, Nat.lt_of_not_le hm]

theorem countToOrder_eq_some {count order pages : Nat} (h : countToOrder count = some (order, pages)) :
    0 < count ∧ order = Nat.clog 2 count ∧ order < MAX_ORDER ∧ pages = 2 ^ order := by
  rw [countToOrder_eq] at h
  split_ifs at h with hc
  simp only [not_or, not_le] at hc
  simp only [Option.some.injEq, Prod.mk.injEq] at h
  obtain ⟨rfl, rfl⟩ := h
  exact ⟨Nat.pos_of_ne_zero hc.1, rfl, hc.2, rfl⟩

/-! ## The merge loop -/

/-- what the merge loop keeps from its start `(s₀, b₀)`: the state and pending block conserve the start, the pending
block holds the block being freed, and the per-CPU lists are untouched -/
structure MergeInv (s₀ : BuddyState) (b₀ : Nat × Nat) (owned : List (Nat × Nat)) (s : BuddyState) (b : Nat × Nat) :
    Prop where
  conserves : Conserves s₀ (b₀ :: owned) s (b :: owned)
  holds : b.1 ≤ b₀.1 ∧ b₀.1 + 2 ^ b₀.2 ≤ b.1 + 2 ^ b.2
  pcp : s.pcpPages = s₀.pcpPages

section Merge
variable {s₀ : BuddyState} {b₀ : Nat × Nat} {owned : List (Nat × Nat)}

theorem MergeInv.start (hinv : Inv s₀) (hown : OwnedOk s₀ (b₀ :: owned)) : MergeInv s₀ b₀ owned s₀ b₀ :=
  ⟨Conserves.refl hinv hown, ⟨le_rfl, le_rfl⟩, rfl⟩

theorem Inv.zoneContainsPfn_of_blockOk {s : BuddyState} {b : Nat × Nat} (hb : BlockOk s.zone.zoneStartPfn s.zone.zoneEndPfn b) :
    zoneContainsPfn s.zone b.1 = true := by
  have := hb.le_hi
  have : 1 ≤ 2 ^ b.2 := Nat.one_le_two_pow
  simp only [zoneContainsPfn, ge_iff_le, Bool.and_eq_true, decide_eq_true_eq]
  exact ⟨hb.lo_le, by omega⟩

/-- one pass of the loop: take the buddy off its list and merge it into the pending block -/
theorem MergeInv.step {s : BuddyState} {x k : Nat} (h : MergeInv s₀ b₀ owned s (x, k)) (hk : k + 1 < MAX_ORDER)
    (hy : x ^^^ 2 ^ k ∈ freeList s k) :
    MergeInv s₀ b₀ owned (freeAreaDel s k (x ^^^ 2 ^ k)) (min x (x ^^^ 2 ^ k), k + 1) := by
  have hinv := h.conserves.inv
  have htake := conserves_freeAreaDel hinv h.conserves.own (Nat.lt_of_succ_lt hk) hy
  refine ⟨((h.conserves.trans htake).perm (List.Perm.swap _ _ _)).merge hk, ?_, ?_⟩
  · obtain ⟨-, hmm⟩ := buddy_min_max (h.conserves.own.blocks _ List.mem_cons_self).aligned
    obtain ⟨h₁, h₂⟩ := h.holds
    have hx : x ≤ max x (x ^^^ 2 ^ k) := le_max_left _ _
    dsimp only at h₁ h₂ hmm ⊢
    refine ⟨(min_le_left _ _).trans h₁, ?_⟩
    rw [pow_succ]
    omega
  · rw [pcpPages_freeAreaDel]
    exact h.pcp

theorem ite_lt_eq_min (x y : Nat) : (if y < x then y else x) = min x y := by
  split_ifs with h
  · exact (min_eq_right h.le).symm
  · exact (min_eq_left (Nat.le_of_not_lt h)).symm

/-- the merge loop, by induction on its fuel: it keeps `MergeInv`, and where it stops below the top order the
pending block's buddy is not on the list -/
theorem buddyFreeMerge_spec :
    ∀ (fuel : Nat) (s : BuddyState) (x k : Nat), MergeInv s₀ b₀ owned s (x, k) → MAX_ORDER ≤ k + fuel + 1 →
      ∀ t p o, buddyFreeMerge s x k fuel = (t, p, o) →
        MergeInv s₀ b₀ owned t (p, o) ∧ (o + 1 < MAX_ORDER → p ^^^ 2 ^ o ∉ freeList t o)
  | 0, s, x, k, h, hfuel, t, p, o, hr => by
    simp only [buddyFreeMerge, Prod.mk.injEq] at hr
    obtain ⟨rfl, rfl, rfl⟩ := hr
    exact ⟨h, fun ho => absurd hfuel (by omega)⟩
  | fuel + 1, s, x, k, h, hfuel, t, p, o, hr => by
    have hinv := h.conserves.inv
    rw [buddyFreeMerge, orderToPages_eq] at hr
    dsimp only at hr
    rw [ite_lt_eq_min] at hr
    split_ifs at hr with hk hzone hbuddy
    · simp only [Prod.mk.injEq] at hr
      obtain ⟨rfl, rfl, rfl⟩ := hr
      refine ⟨h, fun _ hm => ?_⟩
      have hb := hinv.blocks _ (mem_freeBlocks_of_freeList (Nat.lt_of_succ_lt hk) hm)
      rw [Inv.zoneContainsPfn_of_blockOk hb, hinv.zoneBlockValid_of_blockOk hb] at hzone
      exact absurd hzone (by decide)
    · simp only [Prod.mk.injEq] at hr
      obtain ⟨rfl, rfl, rfl⟩ := hr
      refine ⟨h, fun _ hm => ?_⟩
      rw [(hinv.pageIsBuddy_iff (Nat.lt_of_succ_lt hk)).mpr hm] at hbuddy
      exact absurd hbuddy (by decide)
    · have hy : x ^^^ 2 ^ k ∈ freeList s k := by
        apply (hinv.pageIsBuddy_iff (Nat.lt_of_succ_lt hk)).mp
        simpa using hbuddy
      exact buddyFreeMerge_spec fuel _ _ _ (h.step hk hy) (by omega) t p o hr
    · simp only [Prod.mk.injEq] at hr
      obtain ⟨rfl, rfl, rfl⟩ := hr
      exact ⟨h, fun ho => absurd ho hk⟩

end Merge

/-! ## `buddy_free_order_locked` -/

section FreeOrder
variable {s : BuddyState} {pfn order : Nat} {owned : List (Nat × Nat)}

/-- the block freed ends up inside the block `buddy_free_order_locked` puts on a list, whose head it returns -/
theorem buddyFreeOrderLocked_spec (hinv : Inv s) (hown : OwnedOk s ((pfn, order) :: owned)) {head : Nat}
    {t : BuddyState} (hr : buddyFreeOrderLocked s (pfnToPhys pfn) order = (head, t)) :
    Conserves s ((pfn, order) :: owned) t owned ∧ t.pcpPages = s.pcpPages ∧
      ∃ o, (head, o) ∈ freeBlocks t ∧ head ≤ pfn ∧ pfn + 2 ^ order ≤ head + 2 ^ o := by
  unfold buddyFreeOrderLocked at hr
  rw [physToPfn_pfnToPhys] at hr
  rcases hm : buddyFreeMerge s pfn order MAX_ORDER with ⟨t₁, p, o⟩
  rw [hm] at hr
  simp only [Prod.mk.injEq] at hr
  obtain ⟨rfl, rfl⟩ := hr
  obtain ⟨hmi, hco⟩ := buddyFreeMerge_spec MAX_ORDER s pfn order (MergeInv.start hinv hown) (by omega) t₁ p o hm
  have hgive := conserves_freeAreaAdd hmi.conserves.inv hmi.conserves.own hco
  refine ⟨hmi.conserves.trans hgive, by rw [pcpPages_freeAreaAdd]; exact hmi.pcp, o, ?_, hmi.holds⟩
  exact (freeBlocks_freeAreaAdd_of_owned hmi.conserves.inv hmi.conserves.own).symm.subset List.mem_cons_self

/-- the merge loop only takes blocks off lists, so the zone bounds stay -/
theorem zone_buddyFreeMerge :
    ∀ (fuel : Nat) (s : BuddyState) (pfn order : Nat),
      (buddyFreeMerge s pfn order fuel).1.zone.zoneStartPfn = s.zone.zoneStartPfn ∧
        (buddyFreeMerge s pfn order fuel).1.zone.zoneEndPfn = s.zone.zoneEndPfn
  | 0, _, _, _ => ⟨rfl, rfl⟩
  | fuel + 1, s, pfn, order => by
    rw [buddyFreeMerge]
    dsimp only
    rw [ite_lt_eq_min]
    split_ifs
    · exact ⟨rfl, rfl⟩
    · exact ⟨rfl, rfl⟩
    · obtain ⟨h₁, h₂⟩ := zone_buddyFreeMerge fuel (freeAreaDel s order (pfn ^^^ orderToPages order))
        (min pfn (pfn ^^^ orderToPages order)) (order + 1)
      rw [h₁, h₂, zoneStartPfn_freeAreaDel, zoneEndPfn_freeAreaDel]
      exact ⟨rfl, rfl⟩
    · exact ⟨rfl, rfl⟩

theorem zone_buddyFreeOrderLocked (s : BuddyState) (addr order : Nat) :
    (buddyFreeOrderLocked s addr order).2.zone.zoneStartPfn = s.zone.zoneStartPfn ∧
      (buddyFreeOrderLocked s addr order).2.zone.zoneEndPfn = s.zone.zoneEndPfn := by
  obtain ⟨h₁, h₂⟩ := zone_buddyFreeMerge MAX_ORDER s (physToPfn addr) order
  unfold buddyFreeOrderLocked
  rw [zoneStartPfn_freeAreaAdd, zoneEndPfn_freeAreaAdd]
  exact ⟨h₁, h₂⟩

theorem buddyFreeOrderLocked_conserves (hinv : Inv s) (hown : OwnedOk s ((pfn, order) :: owned)) :
    Conserves s ((pfn, order) :: owned) (buddyFreeOrderLocked s (pfnToPhys pfn) order).2 owned :=
  (buddyFreeOrderLocked_spec hinv hown rfl).1

theorem pcpPages_buddyFreeOrderLocked (hinv : Inv s) (hown : OwnedOk s ((pfn, order) :: owned)) :
    (buddyFreeOrderLocked s (pfnToPhys pfn) order).2.pcpPages = s.pcpPages :=
  (buddyFreeOrderLocked_spec hinv hown rfl).2.1

/-- `managed_pages` is a counter next to the lists: the merge loop does not touch it -/
theorem managedPages_buddyFreeMerge :
    ∀ (fuel : Nat) (s : BuddyState) (pfn order : Nat),
      (buddyFreeMerge s pfn order fuel).1.zone.managedPages = s.zone.managedPages
  | 0, _, _, _ => rfl
  | fuel + 1, s, pfn, order => by
    rw [buddyFreeMerge]
    dsimp only
    rw [ite_lt_eq_min]
    split_ifs
    · rfl
    · rfl
    · rw [managedPages_buddyFreeMerge fuel, managedPages_freeAreaDel]
    · rfl

theorem managedPages_buddyFreeOrderLocked (s : BuddyState) (addr order : Nat) :
    (buddyFreeOrderLocked s addr order).2.zone.managedPages = s.zone.managedPages := by
  unfold buddyFreeOrderLocked
  rw [managedPages_freeAreaAdd, managedPages_buddyFreeMerge]

end FreeOrder

/-! ## The per-CPU free path -/

section PcpFree
variable {c : Nat}

theorem pcpCurrentCpu_lt {s : BuddyState} {taskCpu : Option Nat} {cpu : Nat}
    (h : pcpCurrentCpu s taskCpu = some cpu) : cpu < MAX_CPU_NUM := by
  unfold pcpCurrentCpu at h
  split at h
  · exact absurd h (by simp)
  · split_ifs at h with hge
    simp only [Option.some.injEq] at h
    subst h
    simp only [Bool.or_eq_true, decide_eq_true_eq, not_or, not_le] at hge
    exact hge.2

/-- the drain loop pops up to `fuel` pages, each into ownership -/
theorem pcpDrain_spec (hc : c < MAX_CPU_NUM) :
    ∀ (fuel : Nat) (s : BuddyState) (owned : List (Nat × Nat)), Inv s → OwnedOk s owned →
      ∀ ps t, pcpDrain s c fuel = (ps, t) →
        Conserves s owned t (ps.map (·, 0) ++ owned) ∧ ps.length = min fuel (s.pcpPages c).count ∧
          (t.pcpPages c).count = (s.pcpPages c).count - ps.length ∧ ∀ d, d ≠ c → t.pcpPages d = s.pcpPages d
  | 0, s, owned, hinv, hown, ps, t, hr => by
    simp only [pcpDrain, Prod.mk.injEq] at hr
    obtain ⟨rfl, rfl⟩ := hr
    exact ⟨Conserves.refl hinv hown, by simp, by simp, fun _ _ => rfl⟩
  | fuel + 1, s, owned, hinv, hown, ps, t, hr => by
    unfold pcpDrain at hr
    rcases hpop : pcpPopLocked s c with _ | ⟨x, t₁⟩
    · rw [hpop] at hr
      dsimp only at hr
      simp only [Prod.mk.injEq] at hr
      obtain ⟨rfl, rfl⟩ := hr
      have hcount : (s.pcpPages c).count = 0 := by
        rw [← hinv.lists.pcp_len c hc, (pcpPopLocked_eq_none_iff hinv.lists hc).mp hpop, List.length_nil]
      exact ⟨Conserves.refl hinv hown, by simp [hcount], by simp, fun _ _ => rfl⟩
    · rw [hpop] at hr
      dsimp only at hr
      rcases hrest : pcpDrain t₁ c fuel with ⟨rest, t₂⟩
      rw [hrest] at hr
      simp only [Prod.mk.injEq] at hr
      obtain ⟨rfl, rfl⟩ := hr
      have hstep := conserves_pcpPopLocked hinv hown hc hpop
      obtain ⟨hcons, hlen, hcnt, hother⟩ := pcpDrain_spec hc fuel t₁ _ hstep.inv hstep.own rest t₂ hrest
      have hcount₁ : (t₁.pcpPages c).count = (s.pcpPages c).count - 1 := by
        rw [pcpPages_pcpPopLocked hpop, if_pos rfl]
      have hpos : 0 < (s.pcpPages c).count := by
        rw [← hinv.lists.pcp_len c hc, pcpList_pcpPopLocked_self hinv.lists hc hpop, List.length_cons]
        omega
      refine ⟨(hstep.trans hcons).perm ?_, ?_, ?_, ?_⟩
      · rw [List.map_cons]
        exact List.perm_middle
      · rw [List.length_cons, hlen, hcount₁]
        omega
      · rw [hcnt, hcount₁, List.length_cons]
        omega
      · intro d hd
        rw [hother d hd, pcpPages_pcpPopLocked hpop, if_neg hd]

/-- the drained pages go back through `buddy_free_order_locked`, one by one -/
theorem freeDrained_spec :
    ∀ (ps : List Nat) (s : BuddyState) (owned : List (Nat × Nat)), Inv s → OwnedOk s (ps.map (·, 0) ++ owned) →
      Conserves s (ps.map (·, 0) ++ owned)
          (ps.foldl (fun s pfn => (buddyFreeOrderLocked s (pfnToPhys pfn) 0).2) s) owned ∧
        (ps.foldl (fun s pfn => (buddyFreeOrderLocked s (pfnToPhys pfn) 0).2) s).pcpPages = s.pcpPages
  | [], s, owned, hinv, hown => ⟨Conserves.refl hinv hown, rfl⟩
  | p :: ps, s, owned, hinv, hown => by
    rw [List.foldl_cons]
    have hfree := buddyFreeOrderLocked_conserves hinv hown
    obtain ⟨hrest, hpcp⟩ := freeDrained_spec ps _ owned hfree.inv hfree.own
    exact ⟨hfree.trans hrest, hpcp.trans (pcpPages_buddyFreeOrderLocked hinv hown)⟩

/-- `pcp_free_order0`: the page joins the current CPU's list, and a list grown past `PCP_HIGH` gives `PCP_BATCH`
pages back to the buddy lists -/
theorem pcpFreeOrder0_spec {s t : BuddyState} {taskCpu : Option Nat} {pfn : Nat} {owned : List (Nat × Nat)}
    (hinv : Inv s) (hbound : PcpBounded s) (hown : OwnedOk s ((pfn, 0) :: owned))
    (hr : pcpFreeOrder0 s taskCpu pfn = some t) : Conserves s ((pfn, 0) :: owned) t owned ∧ PcpBounded t := by
  unfold pcpFreeOrder0 at hr
  split_ifs at hr
  rcases hcpu : pcpCurrentCpu s taskCpu with _ | cpu
  · rw [hcpu] at hr
    exact absurd hr (by simp)
  rw [hcpu] at hr
  dsimp only at hr
  have hc := pcpCurrentCpu_lt hcpu
  have hle := hbound cpu hc
  have hpush := conserves_pcpPushLocked hinv hown hc (by simp only [PCP_HIGH] at hle; omega)
  have hcount : ((pcpPushLocked s cpu pfn).pcpPages cpu).count = (s.pcpPages cpu).count + 1 := by
    rw [pcpPages_pcpPushLocked, if_pos rfl, Nat.mod_eq_of_lt (by simp only [PCP_HIGH] at hle; omega)]
  have hother (d : Nat) (hd : d ≠ cpu) : (pcpPushLocked s cpu pfn).pcpPages d = s.pcpPages d := by
    rw [pcpPages_pcpPushLocked, if_neg hd]
  split_ifs at hr with hhigh
  · rcases hd : pcpDrain (pcpPushLocked s cpu pfn) cpu PCP_BATCH with ⟨ps, t₁⟩
    rw [hd] at hr
    simp only [Option.some.injEq] at hr
    subst hr
    obtain ⟨hdrain, hlen, hcnt, hdother⟩ := pcpDrain_spec hc PCP_BATCH _ owned hpush.inv hpush.own ps t₁ hd
    obtain ⟨hfree, hpcp⟩ := freeDrained_spec ps t₁ owned hdrain.inv hdrain.own
    refine ⟨hpush.trans (hdrain.trans hfree), ?_⟩
    intro d hdc
    rw [hpcp]
    by_cases hdcpu : d = cpu
    · subst hdcpu
      rw [hcnt, hlen, hcount]
      simp only [PCP_HIGH, PCP_BATCH] at hle hhigh ⊢
      omega
    · rw [hdother d hdcpu, hother d hdcpu]
      exact hbound d hdc
  · simp only [Option.some.injEq, List.foldl_nil] at hr
    subst hr
    refine ⟨hpush, fun d hdc => ?_⟩
    by_cases hdcpu : d = cpu
    · subst hdcpu
      exact Nat.le_of_not_lt hhigh
    · rw [hother d hdcpu]
      exact hbound d hdc

end PcpFree

/-! ## The entry points -/

section Entry
variable {s t : BuddyState} {owned : List (Nat × Nat)}

/-- a frame inside a free block, other than its head, is on no list -/
theorem Inv.not_mem_nodes_of_interior {p o q : Nat} (hinv : Inv s) (hb : (p, o) ∈ freeBlocks s)
    (hq : Mem q (p, o)) (hqp : q ≠ p) : q ∉ nodes s := by
  intro hqn
  obtain ⟨j, hj⟩ := exists_freeBlocks_of_mem_nodes hqn
  have hne : (q, j) ≠ (p, o) := fun h => hqp (Prod.mk.inj h).1
  exact (disjoint_iff_not_mem).mp (Disjoint.of_pairwise hinv.disjoint hj hb hne) q (mem_self (q, j)) hq

theorem physToPage_eq_some {phys q : Nat} (h : physToPage s phys = some q) : q = physToPfn phys := by
  unfold physToPage at h
  split_ifs at h
  exact (Option.some.inj h).symm

theorem lt_zoneEndPfn_of_owned {pfn order : Nat} (hown : OwnedOk s ((pfn, order) :: owned)) :
    pfn < s.zone.zoneEndPfn :=
  Nat.lt_of_lt_of_le (Nat.lt_add_of_pos_right (Nat.two_pow_pos _)) (hown.blocks _ List.mem_cons_self).le_hi

/-- the common tail of `buddy_free_zone` and `free_frames_common`: an order-0 block tries the per-CPU path first -/
theorem freeTail_spec {taskCpu : Option Nat} {pfn order : Nat} (hinv : Inv s) (hbound : PcpBounded s)
    (hown : OwnedOk s ((pfn, order) :: owned))
    (hr : (match (if order = 0 then pcpFreeOrder0 s taskCpu pfn else none) with
      | some s => some s
      | none => some (buddyFreeOrderLocked s (pfnToPhys pfn) order).2) = some t) :
    Conserves s ((pfn, order) :: owned) t owned ∧ PcpBounded t := by
  rcases hp : (if order = 0 then pcpFreeOrder0 s taskCpu pfn else none) with _ | t₁
  · rw [hp] at hr
    simp only [Option.some.injEq] at hr
    subst hr
    refine ⟨buddyFreeOrderLocked_conserves hinv hown, ?_⟩
    intro c hc
    rw [pcpPages_buddyFreeOrderLocked hinv hown]
    exact hbound c hc
  · rw [hp] at hr
    simp only [Option.some.injEq] at hr
    subst hr
    split_ifs at hp with h0
    · subst h0
      exact pcpFreeOrder0_spec hinv hbound hown hp

/-- `buddy_free_zone` of an owned block: when it frees anything, it frees that block -/
theorem buddyFreeZone_spec {taskCpu : Option Nat} {pfn order : Nat} (hinv : Inv s) (hbound : PcpBounded s)
    (hown : OwnedOk s ((pfn, order) :: owned)) (hr : buddyFreeZone s taskCpu (pfnToPhys pfn) order = some t) :
    Conserves s ((pfn, order) :: owned) t owned ∧ PcpBounded t := by
  unfold buddyFreeZone at hr
  rw [hinv.physToPage_pfnToPhys (lt_zoneEndPfn_of_owned hown)] at hr
  dsimp only at hr
  split at hr
  · exact absurd hr (by simp)
  split at hr
  · exact absurd hr (by simp)
  split at hr
  · exact absurd hr (by simp)
  exact freeTail_spec hinv hbound hown hr

/-- `buddy_free_zone_claimed` of an owned block: a claimed head page that ends up inside a larger free block is
reset -/
theorem buddyFreeZoneClaimed_spec {pfn order : Nat} (hinv : Inv s) (hbound : PcpBounded s)
    (hown : OwnedOk s ((pfn, order) :: owned)) (hr : buddyFreeZoneClaimed s (pfnToPhys pfn) order = some t) :
    Conserves s ((pfn, order) :: owned) t owned ∧ PcpBounded t := by
  unfold buddyFreeZoneClaimed at hr
  rw [hinv.physToPage_pfnToPhys (lt_zoneEndPfn_of_owned hown)] at hr
  dsimp only at hr
  rcases hbf : buddyFreeOrderLocked s (pfnToPhys pfn) order with ⟨head, t₁⟩
  obtain ⟨hcons, hpcp, o, hmem, hle, hge⟩ := buddyFreeOrderLocked_spec hinv hown hbf
  have hbound₁ : PcpBounded t₁ := fun c hc => hpcp ▸ hbound c hc
  rw [hbf] at hr
  dsimp only at hr
  split_ifs at hr with hvalid hclaimed hreset
  · simp only [Option.some.injEq] at hr
    subst hr
    have hne : pfn ≠ head := by
      simp only [Bool.and_eq_true, decide_eq_true_eq] at hreset
      exact Ne.symm hreset.1
    have hq : Mem pfn (head, o) := ⟨hle, by have := Nat.two_pow_pos order; dsimp only; omega⟩
    have hout := hcons.inv.not_mem_nodes_of_interior hmem hq hne
    exact ⟨hcons.trans (conserves_setPage _ hcons.inv hcons.own hout BitVec.zero_and), hbound₁⟩
  · simp only [Option.some.injEq] at hr
    subst hr
    exact ⟨hcons, hbound₁⟩

/-- one pass of `page_try_release_last` over the pages of an owned block -/
theorem claimLastPageRefs_spec {pfn order : Nat} :
    ∀ (l : List Nat) (s : BuddyState), (∀ off ∈ l, off < 2 ^ order) → Inv s →
      OwnedOk s ((pfn, order) :: owned) →
      l.foldlM (fun s offset =>
        match physToPage s (pfnToPhys pfn + offset * PAGE_SIZE) with
        | none => none
        | some q => if (s.pageMaps q).refcount = 1 then some (s.setPage q fun page => { page with refcount := 0 })
                    else none) s = some t →
      Conserves s ((pfn, order) :: owned) t ((pfn, order) :: owned) ∧ t.pcpPages = s.pcpPages
  | [], s, _, hinv, hown, hr => by
    simp only [List.foldlM_nil, pure, Option.some.injEq] at hr
    subst hr
    exact ⟨Conserves.refl hinv hown, rfl⟩
  | off :: l, s, hoff, hinv, hown, hr => by
    rw [List.foldlM_cons] at hr
    rcases hq : physToPage s (pfnToPhys pfn + off * PAGE_SIZE) with _ | q
    · rw [hq] at hr
      exact absurd hr (by simp)
    rw [hq] at hr
    dsimp only at hr
    by_cases hone : (s.pageMaps q).refcount = 1
    swap
    · rw [if_neg hone] at hr
      exact absurd hr (by simp)
    rw [if_pos hone] at hr
    simp only [Option.bind_eq_bind, Option.bind_some] at hr
    have hqb : Mem q (pfn, order) := by
      rw [physToPage_eq_some hq]
      have := hoff off List.mem_cons_self
      simp only [Mem, physToPfn, pfnToPhys, PAGE_SIZE]
      omega
    have hout := hown.not_mem_nodes List.mem_cons_self hqb
    have hstep := conserves_setPage (fun page => { page with refcount := 0 }) hinv hown hout
      (hinv.flags_of_not_mem (not_mem_freeList_of_not_mem_nodes hout))
    obtain ⟨hrest, hpcp⟩ := claimLastPageRefs_spec l _ (fun o ho => hoff o (List.mem_cons_of_mem _ ho))
      hstep.inv hstep.own hr
    exact ⟨hstep.trans hrest, hpcp⟩

/-- `free_frames_common` of an owned block, whose order is the one `count_to_order` gives for `count` -/
theorem freeFramesCommon_spec {taskCpu : Option Nat} {pfn count order pages : Nat} {released : Bool}
    (hinv : Inv s) (hbound : PcpBounded s) (horder : countToOrder count = some (order, pages))
    (hown : OwnedOk s ((pfn, order) :: owned))
    (hr : freeFramesCommon s taskCpu (pfnToPhys pfn) count released = some t) :
    Conserves s ((pfn, order) :: owned) t owned ∧ PcpBounded t := by
  obtain ⟨-, -, -, rfl⟩ := countToOrder_eq_some horder
  unfold freeFramesCommon at hr
  rw [horder] at hr
  dsimp only at hr
  rw [hinv.physToPage_pfnToPhys (lt_zoneEndPfn_of_owned hown)] at hr
  dsimp only at hr
  iterate 5
    split at hr
    · exact absurd hr (by simp)
  rcases hclaim : (if released = true then (if pagesAreUnreferenced s (pfnToPhys pfn) (2 ^ order) = true then some s
      else none) else claimLastPageRefs s (pfnToPhys pfn) (2 ^ order)) with _ | t₁
  · rw [hclaim] at hr
    exact absurd hr (by simp)
  rw [hclaim] at hr
  dsimp only at hr
  have hc₁ : Conserves s ((pfn, order) :: owned) t₁ ((pfn, order) :: owned) ∧ t₁.pcpPages = s.pcpPages := by
    split_ifs at hclaim
    · simp only [Option.some.injEq] at hclaim
      subst hclaim
      exact ⟨Conserves.refl hinv hown, rfl⟩
    · exact claimLastPageRefs_spec _ s (fun o ho => List.mem_range.mp ho) hinv hown hclaim
  obtain ⟨htail, hbound₂⟩ := freeTail_spec hc₁.1.inv (fun c hc => hc₁.2 ▸ hbound c hc) hc₁.1.own hr
  exact ⟨hc₁.1.trans htail, hbound₂⟩

end Entry

/-! ## Seeding: `add_memory_region` -/

/-- the size order: the largest order below `MAX_ORDER` whose block fits in `pages` -/
theorem floorOrderLoop_spec (pages : Nat) :
    ∀ fuel order, 2 ^ order ≤ pages → order < MAX_ORDER →
      2 ^ floorOrderLoop pages order fuel ≤ pages ∧ floorOrderLoop pages order fuel < MAX_ORDER
  | 0, order, h, hord => ⟨h, hord⟩
  | fuel + 1, order, h, hord => by
    rw [floorOrderLoop]
    split_ifs with hnext
    · simp only [Bool.and_eq_true, decide_eq_true_eq, Nat.one_shiftLeft] at hnext
      exact floorOrderLoop_spec pages fuel (order + 1) hnext.2 hnext.1
    · exact ⟨h, hord⟩

/-- `__builtin_ctzll`: no bit below it is set -/
theorem testBit_of_lt_ctzll {x j : Nat} (hj : j < ctzll x) (h64 : j < 64) : x.testBit j = false := by
  unfold ctzll at hj
  rcases hf : (List.range 64).find? (fun i => x.testBit i) with _ | i
  · rw [List.find?_eq_none] at hf
    simpa using hf j (List.mem_range.mpr h64)
  · rw [hf, Option.getD_some] at hj
    simpa using (List.find?_range_eq_some.mp hf).2.2 j hj

theorem two_pow_dvd_of_le_ctzll {x j : Nat} (hj : j ≤ ctzll x) (h64 : j ≤ 64) : 2 ^ j ∣ x := by
  apply Nat.dvd_of_mod_eq_zero
  apply Nat.eq_of_testBit_eq
  intro i
  rw [Nat.testBit_mod_two_pow, Nat.zero_testBit]
  by_cases hi : i < j
  · rw [testBit_of_lt_ctzll (by omega) (by omega)]
    simp
  · simp [hi]

section Seed
variable {owned : List (Nat × Nat)}

/-- the order of the block one pass of the seeding loop frees at `pfn` -/
theorem addMemoryOrder_spec {pfn endPfn : Nat} (hlt : pfn < endPfn) :
    let orderBySize := floorOrderForPages (endPfn - pfn)
    let orderByAlign := if ctzll pfn ≥ MAX_ORDER then MAX_ORDER - 1 else ctzll pfn
    let order := if orderBySize < orderByAlign then orderBySize else orderByAlign
    order < MAX_ORDER ∧ 2 ^ order ∣ pfn ∧ pfn + 2 ^ order ≤ endPfn := by
  intro orderBySize orderByAlign order
  obtain ⟨hsize, hsizelt⟩ := floorOrderLoop_spec (endPfn - pfn) MAX_ORDER 0 (by simp; omega) (by decide)
  have halign : orderByAlign ≤ ctzll pfn ∧ orderByAlign < MAX_ORDER := by
    simp only [orderByAlign]
    split_ifs with h
    · simp only [MAX_ORDER] at h ⊢
      omega
    · simp only [MAX_ORDER] at h ⊢
      omega
  have hle : order ≤ orderBySize ∧ order ≤ orderByAlign := by
    simp only [order]
    split_ifs <;> omega
  refine ⟨by omega, two_pow_dvd_of_le_ctzll (by omega) (by simp only [MAX_ORDER] at halign; omega), ?_⟩
  have : 2 ^ order ≤ 2 ^ orderBySize := Nat.pow_le_pow_right (by decide) hle.1
  have : 2 ^ orderBySize ≤ endPfn - pfn := hsize
  omega

/-- the order of the block the seeding loop frees at `pfn`: the size order, capped by the alignment order -/
def seedOrder (pfn endPfn : Nat) : Nat :=
  let orderBySize := floorOrderForPages (endPfn - pfn)
  let orderByAlign := if ctzll pfn ≥ MAX_ORDER then MAX_ORDER - 1 else ctzll pfn
  if orderBySize < orderByAlign then orderBySize else orderByAlign

/-- the blocks the seeding loop frees from `pfn` on, in the order it frees them -/
def seedBlocks (pfn endPfn : Nat) : (fuel : Nat) → List (Nat × Nat)
  | 0 => []
  | fuel + 1 =>
    if pfn < endPfn then (pfn, seedOrder pfn endPfn) :: seedBlocks (pfn + 2 ^ seedOrder pfn endPfn) endPfn fuel
    else []

/-- one pass of the seeding loop: the block freed to the lists and counted in `managed_pages` -/
def seedStep (s : BuddyState) (b : Nat × Nat) : BuddyState :=
  let s := (buddyFreeOrderLocked s (pfnToPhys b.1) b.2).2
  { s with zone := { s.zone with managedPages := s.zone.managedPages + orderToPages b.2 } }

/-- the seeding loop is the fold of one pass over the blocks it frees -/
theorem addMemoryLoop_eq_foldl :
    ∀ (fuel : Nat) (s : BuddyState) (pfn endPfn : Nat),
      addMemoryLoop s pfn endPfn fuel = (seedBlocks pfn endPfn fuel).foldl seedStep s
  | 0, _, _, _ => rfl
  | fuel + 1, s, pfn, endPfn => by
    rw [addMemoryLoop, seedBlocks]
    split_ifs with h
    · rw [List.foldl_cons, ← addMemoryLoop_eq_foldl fuel, ← orderToPages_eq]
      dsimp only [seedStep, seedOrder]
    · rfl

/-- the blocks of the seeding loop are aligned blocks of `[pfn, endPfn)` that tile it -/
theorem seedBlocks_tile :
    ∀ (fuel pfn endPfn : Nat), endPfn - pfn ≤ fuel →
      (∀ b ∈ seedBlocks pfn endPfn fuel, b.2 < MAX_ORDER ∧ 2 ^ b.2 ∣ b.1 ∧ pfn ≤ b.1 ∧ b.1 + 2 ^ b.2 ≤ endPfn) ∧
      (seedBlocks pfn endPfn fuel).Pairwise Disjoint ∧ cover (seedBlocks pfn endPfn fuel) = Set.Ico pfn endPfn ∧
      pagesOf (seedBlocks pfn endPfn fuel) = endPfn - pfn
  | 0, pfn, endPfn, hfuel => by
    refine ⟨fun b hb => absurd hb List.not_mem_nil, List.Pairwise.nil, ?_, by simp [pagesOf, seedBlocks]; omega⟩
    rw [Set.Ico_eq_empty (by omega)]
    ext q
    simp [seedBlocks]
  | fuel + 1, pfn, endPfn, hfuel => by
    rw [seedBlocks]
    split_ifs with hlt
    swap
    · refine ⟨fun b hb => absurd hb List.not_mem_nil, List.Pairwise.nil, ?_, by simp [pagesOf]; omega⟩
      rw [Set.Ico_eq_empty (by omega)]
      ext q
      simp
    have hspec : seedOrder pfn endPfn < MAX_ORDER ∧ 2 ^ seedOrder pfn endPfn ∣ pfn ∧
        pfn + 2 ^ seedOrder pfn endPfn ≤ endPfn := addMemoryOrder_spec hlt
    obtain ⟨hord, hdvd, hfit⟩ := hspec
    generalize seedOrder pfn endPfn = o at hord hdvd hfit ⊢
    have hpos := Nat.two_pow_pos o
    obtain ⟨hin, hdisj, hcover, hpages⟩ := seedBlocks_tile fuel (pfn + 2 ^ o) endPfn (by omega)
    refine ⟨fun b hb => ?_, ?_, ?_, ?_⟩
    · rcases List.mem_cons.mp hb with rfl | hb
      · exact ⟨hord, hdvd, le_rfl, hfit⟩
      · obtain ⟨h₁, h₂, h₃, h₄⟩ := hin b hb
        exact ⟨h₁, h₂, by omega, h₄⟩
    · refine List.Pairwise.cons (fun c hc => .inl ?_) hdisj
      exact (hin c hc).2.2.1
    · rw [cover_cons, hcover]
      ext q
      simp only [Set.mem_union, mem_toSet, Mem, Set.mem_Ico]
      omega
    · rw [pagesOf_cons, hpages]
      dsimp only
      omega

/-- the fold of the seeding passes over pairwise disjoint blocks of the zone that are neither free nor owned: the
invariant and the ownership hold, the per-CPU lists stay, the blocks' frames become free, and `managed_pages` counts
their pages. Induction on the blocks -/
theorem seedStep_foldl :
    ∀ (blocks : List (Nat × Nat)) (s : BuddyState), Inv s → OwnedOk s owned →
      (∀ b ∈ blocks, BlockOk s.zone.zoneStartPfn s.zone.zoneEndPfn b) → blocks.Pairwise Disjoint →
      (∀ q ∈ cover blocks, q ∉ freeSet s ∪ cover owned) →
      Inv (blocks.foldl seedStep s) ∧ OwnedOk (blocks.foldl seedStep s) owned ∧
        (blocks.foldl seedStep s).pcpPages = s.pcpPages ∧
        freeSet (blocks.foldl seedStep s) = cover blocks ∪ freeSet s ∧
        (blocks.foldl seedStep s).zone.managedPages = s.zone.managedPages + pagesOf blocks
  | [], s, hinv, hown, _, _, _ => ⟨hinv, hown, rfl, by simp [cover], by simp [pagesOf]⟩
  | b :: rest, s, hinv, hown, hblocks, hdisj, hfresh => by
    obtain ⟨hb, hrest⟩ := (pairwise_cons_iff).mp hdisj
    have hown₁ : OwnedOk s (b :: owned) := by
      refine ⟨fun c hc => ?_, ?_⟩
      · rcases List.mem_cons.mp hc with rfl | hc
        · exact hblocks c List.mem_cons_self
        · exact hown.blocks c hc
      · rw [List.cons_append, pairwise_cons_iff, cover_append]
        refine ⟨fun q hq => ?_, hown.disjoint⟩
        have := hfresh q ⟨b, List.mem_cons_self, hq⟩
        rw [Set.mem_union, not_or] at this ⊢
        exact ⟨this.2, this.1⟩
    have hfree := buddyFreeOrderLocked_conserves hinv hown₁
    have hset := hfree.freeSet_of_free hown₁
    have hzone := zone_buddyFreeOrderLocked s (pfnToPhys b.1) b.2
    have hman := managedPages_buddyFreeOrderLocked s (pfnToPhys b.1) b.2
    have hpcp := pcpPages_buddyFreeOrderLocked hinv hown₁
    rw [List.foldl_cons]
    obtain ⟨hinv', hown', hpcp', hset', hman'⟩ := seedStep_foldl rest (seedStep s b)
      (hfree.inv.congr rfl rfl rfl rfl rfl rfl) (hfree.own.congr rfl rfl rfl)
      (fun c hc => by
        show BlockOk (buddyFreeOrderLocked s (pfnToPhys b.1) b.2).2.zone.zoneStartPfn
          (buddyFreeOrderLocked s (pfnToPhys b.1) b.2).2.zone.zoneEndPfn c
        rw [hzone.1, hzone.2]
        exact hblocks c (List.mem_cons_of_mem _ hc))
      hrest (fun q hq => by
        show q ∉ freeSet (buddyFreeOrderLocked s (pfnToPhys b.1) b.2).2 ∪ cover owned
        have hq' := hfresh q (by obtain ⟨c, hc, hqc⟩ := hq; exact ⟨c, List.mem_cons_of_mem _ hc, hqc⟩)
        rw [hset, Set.union_assoc, Set.mem_union, not_or]
        exact ⟨fun hqb => hb q hqb hq, hq'⟩)
    refine ⟨hinv', hown', ?_, ?_, ?_⟩
    · rw [hpcp']
      exact hpcp
    · rw [hset', show freeSet (seedStep s b) = freeSet (buddyFreeOrderLocked s (pfnToPhys b.1) b.2).2 from rfl, hset,
        cover_cons]
      ext q
      simp only [Set.mem_union]
      tauto
    · rw [hman', pagesOf_cons]
      show (buddyFreeOrderLocked s (pfnToPhys b.1) b.2).2.zone.managedPages + orderToPages b.2 + pagesOf rest = _
      rw [hman, orderToPages_eq]
      omega

/-- the seeding loop frees exactly the frames of `[pfn, endPfn)`: it is the fold over a tiling of the range -/
theorem addMemoryLoop_spec (fuel : Nat) (s : BuddyState) (pfn endPfn : Nat) (hinv : Inv s) (hbound : PcpBounded s)
    (hown : OwnedOk s owned) (hlo : s.zone.zoneStartPfn ≤ pfn) (hhi : endPfn ≤ s.zone.zoneEndPfn) (hpos : 0 < pfn)
    (hfuel : endPfn - pfn ≤ fuel) (hfresh : ∀ q, pfn ≤ q → q < endPfn → q ∉ freeSet s ∪ cover owned) :
    Inv (addMemoryLoop s pfn endPfn fuel) ∧ PcpBounded (addMemoryLoop s pfn endPfn fuel) ∧
      OwnedOk (addMemoryLoop s pfn endPfn fuel) owned ∧
      freeSet (addMemoryLoop s pfn endPfn fuel) = Set.Ico pfn endPfn ∪ freeSet s := by
  obtain ⟨hin, hdisj, hcover, -⟩ := seedBlocks_tile fuel pfn endPfn hfuel
  rw [addMemoryLoop_eq_foldl]
  obtain ⟨hinv', hown', hpcp, hset, -⟩ := seedStep_foldl _ s hinv hown
    (fun b hb => by
      obtain ⟨h₁, h₂, h₃, h₄⟩ := hin b hb
      exact ⟨h₁, h₂, by omega, by omega, by omega⟩)
    hdisj (fun q hq => by
      rw [hcover, Set.mem_Ico] at hq
      exact hfresh q hq.1 hq.2)
  refine ⟨hinv', fun c hc => ?_, hown', by rw [hset, hcover]⟩
  rw [hpcp]
  exact hbound c hc

/-- `add_memory_region`: the region is rounded inwards to whole pages, kept off frame 0, clipped to the zone, and
seeded; when its frames are neither free nor owned, it frees frames of the region only -/
theorem addMemoryRegion_spec {s : BuddyState} {start endAddr : Nat} (hinv : Inv s) (hbound : PcpBounded s)
    (hown : OwnedOk s owned)
    (hfresh : ∀ q, physToPfn (PADDING_UP start PAGE_SIZE) ≤ q → q < physToPfn endAddr → q ∉ freeSet s ∪ cover owned) :
    Inv (addMemoryRegion s start endAddr) ∧ PcpBounded (addMemoryRegion s start endAddr) ∧
      OwnedOk (addMemoryRegion s start endAddr) owned ∧ freeSet s ⊆ freeSet (addMemoryRegion s start endAddr) ∧
      freeSet (addMemoryRegion s start endAddr) ⊆
        Set.Ico (physToPfn (PADDING_UP start PAGE_SIZE)) (physToPfn endAddr) ∪ freeSet s := by
  have hnoop : Inv s ∧ PcpBounded s ∧ OwnedOk s owned ∧ freeSet s ⊆ freeSet s ∧
      freeSet s ⊆ Set.Ico (physToPfn (PADDING_UP start PAGE_SIZE)) (physToPfn endAddr) ∪ freeSet s :=
    ⟨hinv, hbound, hown, subset_rfl, Set.subset_union_right⟩
  have hup : PADDING_UP start PAGE_SIZE % PAGE_SIZE = 0 := Nat.mul_mod_left _ _
  have hdown : PADDING_DOWN endAddr PAGE_SIZE ≤ endAddr := Nat.div_mul_le_self _ _
  unfold addMemoryRegion
  dsimp only
  generalize hS₂ : (if PADDING_UP start PAGE_SIZE = 0 then PAGE_SIZE else PADDING_UP start PAGE_SIZE) = S₂
  have hS₂' : PAGE_SIZE ≤ S₂ ∧ PADDING_UP start PAGE_SIZE ≤ S₂ := by
    rw [← hS₂]
    split_ifs with h0
    · simp [h0]
    · simp only [PAGE_SIZE] at hup h0 ⊢
      omega
  generalize hS₃ : (if S₂ < zonePhysStart s.zone then zonePhysStart s.zone else S₂) = S₃
  have hS₃' : S₂ ≤ S₃ ∧ zonePhysStart s.zone ≤ S₃ := by
    rw [← hS₃]
    split_ifs <;> omega
  generalize hE₃ : (if PADDING_DOWN endAddr PAGE_SIZE > zonePhysEnd s.zone then zonePhysEnd s.zone
    else PADDING_DOWN endAddr PAGE_SIZE) = E₃
  have hE₃' : E₃ ≤ endAddr ∧ E₃ ≤ zonePhysEnd s.zone := by
    rw [← hE₃]
    split_ifs <;> omega
  split_ifs with h₁ h₂ h₃
  · exact hnoop
  · exact hnoop
  · exact hnoop
  have hlo : s.zone.zoneStartPfn ≤ physToPfn S₃ := by
    have := hS₃'.2
    simp only [zonePhysStart, physToPfn] at this ⊢
    exact (Nat.le_div_iff_mul_le (by decide)).mpr this
  have hhi : physToPfn E₃ ≤ s.zone.zoneEndPfn := by
    have := hE₃'.2
    simp only [zonePhysEnd, physToPfn] at this ⊢
    exact Nat.div_le_of_le_mul (by rw [Nat.mul_comm]; exact this)
  have hpos : 0 < physToPfn S₃ := by
    simp only [physToPfn, PAGE_SIZE] at hS₂' hS₃' ⊢
    omega
  have hfrom : physToPfn (PADDING_UP start PAGE_SIZE) ≤ physToPfn S₃ := Nat.div_le_div_right (by omega)
  have hto : physToPfn E₃ ≤ physToPfn endAddr := Nat.div_le_div_right hE₃'.1
  obtain ⟨hinv', hbound', hown', hset'⟩ := addMemoryLoop_spec _ s _ _ hinv hbound hown hlo hhi hpos le_rfl
    fun q hq₁ hq₂ => hfresh q (by omega) (by omega)
  refine ⟨hinv', hbound', hown', by rw [hset']; exact Set.subset_union_right, ?_⟩
  rw [hset']
  exact Set.union_subset_union_left _ (Set.Ico_subset_Ico hfrom hto)

end Seed

end Naos.Buddy
