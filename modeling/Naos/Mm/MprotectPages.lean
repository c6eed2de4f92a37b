/-
The two models of `sys_mprotect` (`mm/mm_syscall.c`) agree. `Naos.Cow` keeps, for each address space, the
`vm_flags` of the VMA over each page as a 64-bit word and rewrites them page by page, beside the leaf entries it
rewrites for the page tables; `Naos.Vmas` keeps the VMA tree, and splits, rewrites and merges its VMAs. Reading the
tree address by address (`pageFlags`) gives the page model's view, and over that reading the calls agree: every
error of the page model is returned by the tree model too, with the manager unchanged, and when the tree model
returns 0 so does the page model, which leaves every page with the flags the tree has after the call.

The page model rounds the length without the 64-bit wrap of `PADDING_UP`, so the lengths compared are those whose
rounding does not wrap; the tree model's `ptes` stands for what the page model's leaf rewrite returns.

Results:
- `ofNat_mprotectFlags`, `ofNat_protToVmaAccessFlags`: the flag rewrite of the tree model, as a 64-bit word, is the
  page model's;
- `Naos.Cow.sysMprotect_fst`, `Naos.Cow.sysMprotect_vma_of_zero`: what the page model returns and writes;
- `sysMprotect_of_page_error`: an error of the page model is the tree model's;
- `sysMprotect_pages`: the two calls agree.
-/
import Mathlib
import Naos.Mm.Mprotect

namespace Naos.Cow

/-- the code the page model returns: that of the first check that fails, or 0 -/
theorem sysMprotect_fst (s : Sys) (i addr len prot : Nat) :
    (sysMprotect s i addr len prot).1 =
      if addr % PAGE_SIZE ≠ 0 then -EINVAL
      else if BitVec.ofNat 64 prot &&& ~~~(PROT_READ ||| PROT_WRITE ||| PROT_EXEC) != 0 then -EINVAL
      else if (len + PAGE_SIZE - 1) / PAGE_SIZE * PAGE_SIZE = 0 then -EINVAL
      else if checkUserOverflow s.hhdm addr ((len + PAGE_SIZE - 1) / PAGE_SIZE * PAGE_SIZE) then -EFAULT
      else if !(pagesOf addr ((len + PAGE_SIZE - 1) / PAGE_SIZE * PAGE_SIZE)).all fun va => ((s.spaces i).vma va).isSome
        then -ENOMEM
      else 0 := by
  unfold sysMprotect
  dsimp only
  split_ifs <;> rfl

/-- a call that returns 0 rewrites the flags of every page of the range -/
theorem sysMprotect_vma_of_zero {s : Sys} {i addr len prot : Nat} (h : (sysMprotect s i addr len prot).1 = 0) :
    ((sysMprotect s i addr len prot).2.spaces i).vma = fun va =>
      if va ∈ pagesOf addr ((len + PAGE_SIZE - 1) / PAGE_SIZE * PAGE_SIZE) then ((s.spaces i).vma va).map fun vmFlags =>
        if vmFlags &&& VMA_GUARD != 0 then
          vmaGuardSetSavedAccess vmFlags (protToVmaAccessFlags (BitVec.ofNat 64 prot)) &&&
            ~~~(VMA_READ ||| VMA_WRITE ||| VMA_EXEC)
        else (vmFlags &&& ~~~(VMA_READ ||| VMA_WRITE ||| VMA_EXEC)) ||| protToVmaAccessFlags (BitVec.ofNat 64 prot)
      else (s.spaces i).vma va := by
  unfold sysMprotect at h ⊢
  dsimp only at h ⊢
  split_ifs at h ⊢ <;> first | (simp [EINVAL, EFAULT, ENOMEM] at h; done) | simp [Sys.setSpace]

end Naos.Cow

namespace Naos.Vmas

open RedBlack RBTree Naos.RbTree
open Naos.Buddy (PAGE_SIZE PADDING_DOWN PADDING_UP)
open Naos.Cow (checkUserOverflow)

/-- what the page model keeps of a manager: the `vm_flags` over each address, as the 64-bit word -/
def pageFlags (mgr : VmaManager) (T : RBTree Nat) (va : Nat) : Option (BitVec 64) :=
  (addrView mgr T va).map fun w => BitVec.ofNat 64 w.flags

section Words

theorem ofNat_shiftLeft (x n : Nat) : BitVec.ofNat 64 (x <<< n) = BitVec.ofNat 64 x <<< n := by
  apply BitVec.eq_of_toNat_eq
  simp [Nat.shiftLeft_eq, Nat.mod_mul_mod]

theorem ofNat_uNot (m : Nat) : BitVec.ofNat 64 (uNot m) = ~~~BitVec.ofNat 64 m := by
  rw [uNot, BitVec.ofNat_xor, show BitVec.ofNat 64 (2 ^ 64 - 1) = BitVec.allOnes 64 by decide, BitVec.allOnes_xor]

/-- the test of a number against a mask below 2^64 is the test of its 64-bit word -/
theorem ofNat_and_ne_zero (x : Nat) {m : Nat} (hm : m < 2 ^ 64) :
    (BitVec.ofNat 64 x &&& BitVec.ofNat 64 m != 0) = decide (x &&& m ≠ 0) := by
  have hlt : x &&& m < 2 ^ 64 := lt_of_le_of_lt Nat.and_le_right hm
  have hiff : BitVec.ofNat 64 (x &&& m) = 0 ↔ x &&& m = 0 := by
    rw [BitVec.toNat_eq, BitVec.toNat_ofNat, Nat.mod_eq_of_lt hlt]
    rfl
  rw [← BitVec.ofNat_and]
  by_cases h : x &&& m = 0
  · rw [h]
    rfl
  · rw [bne_iff_ne.2 fun he => h (hiff.1 he), decide_eq_true h]

theorem ofNat_vmaGuardSetSavedAccess (f a : Nat) :
    BitVec.ofNat 64 (vmaGuardSetSavedAccess f a) =
      Naos.Cow.vmaGuardSetSavedAccess (BitVec.ofNat 64 f) (BitVec.ofNat 64 a) := by
  rw [vmaGuardSetSavedAccess, Naos.Cow.vmaGuardSetSavedAccess]
  simp only [BitVec.ofNat_or, BitVec.ofNat_and, ofNat_uNot, ofNat_shiftLeft]
  rw [BitVec.shiftLeft_and_distrib]
  rfl

theorem ofNat_protToVmaAccessFlags (prot : Nat) :
    Naos.Cow.protToVmaAccessFlags (BitVec.ofNat 64 prot) = BitVec.ofNat 64 (protToVmaAccessFlags prot) := by
  have hr := ofNat_and_ne_zero prot (m := PROT_READ) (by decide)
  have hw := ofNat_and_ne_zero prot (m := PROT_WRITE) (by decide)
  have hx := ofNat_and_ne_zero prot (m := PROT_EXEC) (by decide)
  simp only [Naos.Cow.protToVmaAccessFlags, protToVmaAccessFlags,
    show Naos.Cow.PROT_READ = BitVec.ofNat 64 PROT_READ from rfl, show Naos.Cow.PROT_WRITE = BitVec.ofNat 64 PROT_WRITE from rfl,
    show Naos.Cow.PROT_EXEC = BitVec.ofNat 64 PROT_EXEC from rfl, hr, hw, hx, decide_eq_true_eq]
  split_ifs <;> decide

theorem ofNat_mprotectFlags (a f : Nat) :
    BitVec.ofNat 64 (mprotectFlags a f) =
      if BitVec.ofNat 64 f &&& Naos.Cow.VMA_GUARD != 0 then
        Naos.Cow.vmaGuardSetSavedAccess (BitVec.ofNat 64 f) (BitVec.ofNat 64 a) &&&
          ~~~(Naos.Cow.VMA_READ ||| Naos.Cow.VMA_WRITE ||| Naos.Cow.VMA_EXEC)
      else (BitVec.ofNat 64 f &&& ~~~(Naos.Cow.VMA_READ ||| Naos.Cow.VMA_WRITE ||| Naos.Cow.VMA_EXEC)) |||
        BitVec.ofNat 64 a := by
  have hg := ofNat_and_ne_zero f (m := VMA_GUARD) (by decide)
  have hmask : ~~~(Naos.Cow.VMA_READ ||| Naos.Cow.VMA_WRITE ||| Naos.Cow.VMA_EXEC) =
      BitVec.ofNat 64 (uNot (VMA_READ ||| VMA_WRITE ||| VMA_EXEC)) := by decide
  rw [show Naos.Cow.VMA_GUARD = BitVec.ofNat 64 VMA_GUARD from rfl, hg, hmask, mprotectFlags]
  simp only [decide_eq_true_eq]
  split_ifs with h <;> simp only [BitVec.ofNat_and, BitVec.ofNat_or, ofNat_vmaGuardSetSavedAccess]

end Words

section Pages

theorem mem_pagesOf {addr len va : Nat} (haddr : addr % PAGE_SIZE = 0) (hva : va % PAGE_SIZE = 0)
    (hlen : len % PAGE_SIZE = 0) : va ∈ Naos.Cow.pagesOf addr len ↔ addr ≤ va ∧ va < addr + len := by
  simp only [Naos.Cow.pagesOf, List.mem_map, List.mem_range, Naos.Cow.PAGE_SIZE]
  unfold PAGE_SIZE at haddr hva hlen
  constructor
  · rintro ⟨k, hk, rfl⟩
    omega
  · rintro ⟨hlo, hhi⟩
    exact ⟨(va - addr) / 4096, by omega, by omega⟩

/-- what sys_mprotect of the tree model has checked when it returns 0 -/
theorem sysMprotect_checks_of_zero {fuel : Nat} {malloc : VmaManager → Option Nat} {hhdm ptes : Nat}
    {mgr mgr' : VmaManager} {addr len prot : Nat} (h : sysMprotect fuel malloc hhdm ptes mgr addr len prot = some (0, mgr')) :
    addr % PAGE_SIZE = 0 ∧ prot &&& uNot (PROT_READ ||| PROT_WRITE ||| PROT_EXEC) = 0 ∧
      PADDING_UP len PAGE_SIZE ≠ 0 ∧ checkUserOverflow hhdm addr (PADDING_UP len PAGE_SIZE) = false := by
  unfold sysMprotect at h
  dsimp only at h
  split_ifs at h with h1 h2 h3 h4
  · simp [EINVAL] at h
  · simp [EINVAL] at h
  · simp [EINVAL] at h
  · simp [EFAULT] at h
  · simp only [userRangeValid, Bool.not_eq_true', Bool.and_eq_false_iff, decide_eq_false_iff_not, not_not,
      Bool.not_eq_false'] at h4
    exact ⟨not_not.1 h1, not_not.1 h2, h3, by simpa using fun h => h4 (.inr h)⟩

/-- the page model rounds the length as PADDING_UP does when the sum does not wrap -/
theorem cow_round_eq {len : Nat} (hlen : len + PAGE_SIZE - 1 < 2 ^ 64) :
    (len + Naos.Cow.PAGE_SIZE - 1) / Naos.Cow.PAGE_SIZE * Naos.Cow.PAGE_SIZE = PADDING_UP len PAGE_SIZE := by
  rw [paddingUp_eq_round hlen]
  rfl

theorem cow_prot_check (prot : Nat) :
    (BitVec.ofNat 64 prot &&& ~~~(Naos.Cow.PROT_READ ||| Naos.Cow.PROT_WRITE ||| Naos.Cow.PROT_EXEC) != 0) =
      decide (prot &&& uNot (PROT_READ ||| PROT_WRITE ||| PROT_EXEC) ≠ 0) := by
  rw [show ~~~(Naos.Cow.PROT_READ ||| Naos.Cow.PROT_WRITE ||| Naos.Cow.PROT_EXEC) =
    BitVec.ofNat 64 (uNot (PROT_READ ||| PROT_WRITE ||| PROT_EXEC)) by decide]
  exact ofNat_and_ne_zero prot (by decide)

end Pages

section Agree

variable {fuel : Nat} {malloc : VmaManager → Option Nat} {mgr : VmaManager} {T : RBTree Nat}

theorem pagesOf_all_of_covered {s : Naos.Cow.Sys} {i : Nat} (hvma : (s.spaces i).vma = pageFlags mgr T)
    {addr L : Nat} (hcov : Covered mgr T addr (addr + L)) (hL : L % PAGE_SIZE = 0) :
    (Naos.Cow.pagesOf addr L).all (fun va => ((s.spaces i).vma va).isSome) = true := by
  rw [List.all_eq_true]
  intro va hva
  simp only [Naos.Cow.pagesOf, List.mem_map, List.mem_range] at hva
  obtain ⟨k, hk, rfl⟩ := hva
  rw [hvma, pageFlags, Option.isSome_map, Option.isSome_iff_ne_none]
  unfold PAGE_SIZE at hL
  exact hcov _ (by omega) (by simp only [Naos.Cow.PAGE_SIZE] at hk ⊢; omega)

/-- an error of the page model is one the tree model returns too, leaving the manager as it was -/
theorem sysMprotect_of_page_error (hok : TreeOk mgr T) (hfuel : T.ids.length ≤ fuel) {s : Naos.Cow.Sys} {i : Nat}
    (hvma : (s.spaces i).vma = pageFlags mgr T) (ptes : Nat) {addr len prot : Nat}
    (hlen : len + PAGE_SIZE - 1 < 2 ^ 64) (h : (Naos.Cow.sysMprotect s i addr len prot).1 ≠ 0) :
    sysMprotect fuel malloc s.hhdm ptes mgr addr len prot =
      some (((Naos.Cow.sysMprotect s i addr len prot).1 % 2 ^ 64).toNat, mgr) := by
  rw [Naos.Cow.sysMprotect_fst, cow_prot_check, cow_round_eq hlen, show Naos.Cow.PAGE_SIZE = PAGE_SIZE from rfl]
    at h ⊢
  simp only [decide_eq_true_eq] at h ⊢
  by_cases h1 : addr % PAGE_SIZE ≠ 0
  · simp [sysMprotect, h1, EINVAL, Naos.Cow.EINVAL]
  by_cases h2 : prot &&& uNot (PROT_READ ||| PROT_WRITE ||| PROT_EXEC) ≠ 0
  · simp [sysMprotect, h1, h2, EINVAL, Naos.Cow.EINVAL]
  by_cases h3 : PADDING_UP len PAGE_SIZE = 0
  · simp [sysMprotect, h1, h2, h3, EINVAL, Naos.Cow.EINVAL]
  by_cases h4 : checkUserOverflow s.hhdm addr (PADDING_UP len PAGE_SIZE) = true
  · simp [sysMprotect, userRangeValid, h1, h2, h3, h4, EFAULT, Naos.Cow.EFAULT]
  rw [if_neg h1, if_neg h2, if_neg h3, if_neg h4] at h ⊢
  by_cases h5 : (!(Naos.Cow.pagesOf addr (PADDING_UP len PAGE_SIZE)).all fun va => ((s.spaces i).vma va).isSome) = true
  · have hcov : ¬Covered mgr T addr (addr + PADDING_UP len PAGE_SIZE) := fun hc => by
      rw [pagesOf_all_of_covered hvma hc (paddingUp_aligned len)] at h5
      exact absurd h5 (by decide)
    rw [if_pos h5, sysMprotect_of_not_covered hok hfuel s.hhdm ptes addr len prot (not_not.1 h1) (not_not.1 h2)
      (by simp [userRangeValid, h3, h4]) hcov]
    rfl
  · rw [if_neg h5] at h
    exact absurd rfl h

/-- The two models of sys_mprotect agree on a manager that keeps the invariant, read page by page: every error of
the page model is the tree model's too, with the manager unchanged, and when the tree model returns 0 the page model
does too and gives every page the flags the tree has after the call. -/
theorem sysMprotect_pages (hmalloc : MallocFresh malloc) (hok : VmaOk mgr T) (hfuel : 2 * T.ids.length + 4 < fuel)
    {s : Naos.Cow.Sys} {i : Nat} (hvma : (s.spaces i).vma = pageFlags mgr T) (ptes addr len prot : Nat)
    (hlen : len + PAGE_SIZE - 1 < 2 ^ 64) :
    ∃ ret mgr' T', sysMprotect fuel malloc s.hhdm ptes mgr addr len prot = some (ret, mgr') ∧ VmaOk mgr' T' ∧
      ((Naos.Cow.sysMprotect s i addr len prot).1 ≠ 0 →
        ret = ((Naos.Cow.sysMprotect s i addr len prot).1 % 2 ^ 64).toNat ∧ mgr' = mgr) ∧
      (ret = 0 → (Naos.Cow.sysMprotect s i addr len prot).1 = 0 ∧ ∀ va, va % PAGE_SIZE = 0 →
        ((Naos.Cow.sysMprotect s i addr len prot).2.spaces i).vma va = pageFlags mgr' T' va) := by
  obtain ⟨ret, mgr', T', hrun, hok', hout, hzero⟩ := sysMprotect_spec hmalloc hok hfuel s.hhdm ptes addr len prot
  refine ⟨ret, mgr', T', hrun, hok', fun hne => ?_, fun h0 => ?_⟩
  · rw [sysMprotect_of_page_error hok.tree (by omega) hvma ptes hlen hne, Option.some.injEq, Prod.mk.injEq] at hrun
    exact ⟨hrun.1.symm, hrun.2.symm⟩
  subst h0
  obtain ⟨hcov, hview⟩ := hzero rfl
  obtain ⟨haddr, hprot, hL, hover⟩ := sysMprotect_checks_of_zero hrun
  have hfst : (Naos.Cow.sysMprotect s i addr len prot).1 = 0 := by
    rw [Naos.Cow.sysMprotect_fst, cow_prot_check, cow_round_eq hlen, show Naos.Cow.PAGE_SIZE = PAGE_SIZE from rfl,
      pagesOf_all_of_covered hvma hcov (paddingUp_aligned len)]
    simp [haddr, hprot, hL, hover]
  refine ⟨hfst, fun va hva => ?_⟩
  rw [Naos.Cow.sysMprotect_vma_of_zero hfst, cow_round_eq hlen]
  dsimp only
  rw [pageFlags, hview, hvma, pageFlags]
  by_cases hin : addr ≤ va ∧ va < addr + PADDING_UP len PAGE_SIZE
  · rw [if_pos ((mem_pagesOf haddr hva (paddingUp_aligned len)).2 hin)]
    cases addrView mgr T va with
    | none => rfl
    | some w =>
      simp only [Option.map_some, AddrView.rewriteAt, if_pos hin, ofNat_mprotectFlags, ofNat_protToVmaAccessFlags]
  · rw [if_neg fun h => hin ((mem_pagesOf haddr hva (paddingUp_aligned len)).1 h),
      AddrView.rewriteAt_of_outside (by omega)]

/-- the address space of the page model that reads `pageVma` -/
def pageSys : Naos.Cow.Sys where
  spaces _ := ⟨[], pageFlags pageVma (.node .leaf .black 1 .leaf)⟩
  mem _ := 0
  refcount _ := 0
  managed _ := false
  hhdm := 0xffff800000000000

/-- making the middle page of `pageVma` read-only in both models: both return 0, and the page model gives the page
the read-only flags -/
theorem sysMprotect_pages_pageVma :
    (∃ ret mgr' T', sysMprotect 11 (firstEmptyVma 4) pageSys.hhdm 0 pageVma 0x2000 0x1000 PROT_READ = some (ret, mgr') ∧
      VmaOk mgr' T' ∧
      ((Naos.Cow.sysMprotect pageSys 0 0x2000 0x1000 PROT_READ).1 ≠ 0 →
        ret = ((Naos.Cow.sysMprotect pageSys 0 0x2000 0x1000 PROT_READ).1 % 2 ^ 64).toNat ∧ mgr' = pageVma) ∧
      (ret = 0 → (Naos.Cow.sysMprotect pageSys 0 0x2000 0x1000 PROT_READ).1 = 0 ∧ ∀ va, va % PAGE_SIZE = 0 →
        ((Naos.Cow.sysMprotect pageSys 0 0x2000 0x1000 PROT_READ).2.spaces 0).vma va = pageFlags mgr' T' va)) ∧
    (sysMprotect 11 (firstEmptyVma 4) pageSys.hhdm 0 pageVma 0x2000 0x1000 PROT_READ).map Prod.fst = some 0 ∧
    ((Naos.Cow.sysMprotect pageSys 0 0x2000 0x1000 PROT_READ).2.spaces 0).vma 0x2000 = some 1#64 :=
  ⟨sysMprotect_pages (mallocFresh_firstEmptyVma 4) pageVma_ok (by decide) rfl 0 0x2000 0x1000 PROT_READ (by decide),
    by decide, by decide⟩

end Agree

end Naos.Vmas
