/-
Lean model of the release of unmapped frames after a TLB flush (`mm/page_table.c`, `mm/mm.c`,
`arch/x86_64/mm/arch.c`, and `arch_flush_tlb_all` of each architecture).

A frame taken out of a user page table goes into a batch; `unmap_release_batch_commit` first retries the deferred
batches (`unmap_release_deferred_drain`), then asks `task_mm_flush_tlb_all` to flush the batch's address space and
hands the frames to `address_release` only when the flush reports success; otherwise the batch goes onto the
deferred list, holding a reference on its address space.

Whether success means "no CPU still translates to the frame" depends on the architecture. x86-64 overrides
`task_mm_flush_tlb_all` with a shootdown that flushes every other CPU that has the space loaded and reports failure
when it cannot wait for them. The other architectures use the weak default in `mm/mm.c`, which calls
`arch_flush_tlb_all` and returns true: on aarch64 that is `tlbi vmalle1is`, broadcast to every CPU; on riscv64
(`sfence.vma`) and loongarch64 (`invtlb`) it flushes the calling CPU only.

CPUs are modelled with the space they have loaded and the translations their TLB caches. A context switch writes the
page-table root, which drops the cached translations. Every call runs as one step; the outcome of the waits and IPIs
of the x86-64 shootdown is an argument of the step.

Results:
- `weak_flush_releases_stale_frame`: on riscv64, after a second CPU has cached a translation, `munmap` from the first
  CPU releases the frame while the second still translates to it; the same run on x86-64 releases it with no stale
  translation left.
-/
import Mathlib

namespace Naos.TlbRelease

/-! ## Machine state -/

inductive Arch where
  | x86_64
  | aarch64
  | riscv64
  | loongarch64
  deriving DecidableEq, Repr

def MAX_CPU_NUM : Nat := 128

/-- a CPU: the address space it has loaded (`none`: the kernel's only) and the translations its TLB caches, as
(virtual page, frame) -/
structure Cpu where
  loaded : Option Nat
  tlb : List (Nat × Nat)

/-- `unmap_release_batch_t` and `deferred_unmap_release_t`: the address space and the frames and tables to
release -/
structure Batch where
  mm : Option Nat
  pageAddrs : List Nat
  tableAddrs : List Nat

structure Mach where
  cpus : Nat → Cpu
  /-- `cpu_count` -/
  cpuCount : Nat
  /-- the leaf entries of each address space: page → frame -/
  pt : Nat → Nat → Option Nat
  /-- `mm->ref_count` -/
  refCount : Nat → Nat
  /-- `deferred_unmap_head` and the entries linked from it -/
  deferred : List Batch
  /-- every address handed to `address_release`, in order -/
  released : List Nat

def Mach.setTlb (m : Mach) (c : Nat) (tlb : List (Nat × Nat)) : Mach :=
  { m with cpus := Function.update m.cpus c { m.cpus c with tlb := tlb } }

/-- no released frame is still cached by any CPU -/
def NoStale (m : Mach) : Prop := ∀ f ∈ m.released, ∀ c, ∀ e ∈ (m.cpus c).tlb, e.2 ≠ f

/-! ## Flushes -/

/-- `arch_flush_tlb_all` on CPU `self`: the CR3 reload (x86-64), `sfence.vma zero, zero` (riscv64) and
`invtlb 0x0` (loongarch64) clear the local TLB; `tlbi vmalle1is` (aarch64) is broadcast to every CPU -/
def archFlushTlbAll (a : Arch) (m : Mach) (self : Nat) : Mach :=
  match a with
  | .aarch64 => { m with cpus := fun c => { m.cpus c with tlb := [] } }
  | _ => m.setTlb self []

/-- the weak `task_mm_flush_tlb_all` of `mm/mm.c` -/
def taskMmFlushTlbAllWeak (a : Arch) (m : Mach) (self : Nat) : Bool × Mach := (true, archFlushTlbAll a m self)

/-- the CPUs other than `self` that have `mm` loaded, as the loop of `x64_tlb_shootdown_mm` selects them -/
def shootdownTargets (m : Mach) (self mm : Nat) : List Nat :=
  (List.range (min m.cpuCount MAX_CPU_NUM)).filter fun c => c ≠ self && (m.cpus c).loaded == some mm

/-- `x64_tlb_shootdown_mm(mm, 0, true)`. `wait` is `x64_tlb_shootdown_should_wait()`, `ipiOk` that every
`irq_send_ipi` succeeds; a target that completes has flushed, or has switched away, which flushed too -/
def x64TlbShootdownMm (m : Mach) (self : Nat) (mm : Option Nat) (wait ipiOk : Bool) : Bool × Mach :=
  match mm with
  | none => (true, archFlushTlbAll .x86_64 m self)
  | some mm =>
    let m := archFlushTlbAll .x86_64 m self
    let targets := shootdownTargets m self mm
    if targets = [] then (true, m)
    else if !(wait && ipiOk) then (false, m)
    else (true, targets.foldl (fun m c => m.setTlb c []) m)

def taskMmFlushTlbAll (a : Arch) (m : Mach) (self : Nat) (mm : Option Nat) (wait ipiOk : Bool) : Bool × Mach :=
  match a with
  | .x86_64 => x64TlbShootdownMm m self mm wait ipiOk
  | _ => taskMmFlushTlbAllWeak a m self

/-! ## Release of a batch -/

/-- `unmap_release_addrs`: `unmap_release_page` and `unmap_release_table` skip 0 -/
def unmapReleaseAddrs (m : Mach) (b : Batch) : Mach :=
  { m with released := m.released ++ b.pageAddrs.filter (· ≠ 0) ++ b.tableAddrs.filter (· ≠ 0) }

/-- the reference count drop of `free_page_table` (the teardown of a space whose count reaches 0 is left out) -/
def freePageTable (m : Mach) (mm : Option Nat) : Mach :=
  match mm with
  | none => m
  | some mm =>
    if m.refCount mm = 0 then m else { m with refCount := Function.update m.refCount mm (m.refCount mm - 1) }

/-- `unmap_defer_release`: the batch goes to the head of the deferred list and pins its space -/
def unmapDeferRelease (m : Mach) (b : Batch) : Mach :=
  if b.pageAddrs = [] ∧ b.tableAddrs = [] then m
  else
    let m := match b.mm with
      | none => m
      | some mm => { m with refCount := Function.update m.refCount mm (m.refCount mm + 1) }
    { m with deferred := b :: m.deferred }

/-- the loop of `unmap_release_deferred_drain`: batches are taken from the head; the first one whose flush is not
confirmed goes back and the drain stops. The fuel is the list's length, which each released batch shortens. -/
def drainLoop (a : Arch) (self : Nat) (wait ipiOk : Bool) : Mach → Nat → Mach
  | m, 0 => m
  | m, fuel + 1 =>
    match m.deferred with
    | [] => m
    | b :: rest =>
      let m := { m with deferred := rest }
      let (ok, m) := match b.mm with
        | none => (true, m)
        | some _ => taskMmFlushTlbAll a m self b.mm wait ipiOk
      if ok then drainLoop a self wait ipiOk (freePageTable (unmapReleaseAddrs m b) b.mm) fuel
      else { m with deferred := b :: m.deferred }

/-- `unmap_release_deferred_drain`; `canWait` is `unmap_release_can_wait()` -/
def unmapReleaseDeferredDrain (a : Arch) (canWait : Bool) (m : Mach) (self : Nat) (wait ipiOk : Bool) : Mach :=
  if !canWait then m else drainLoop a self wait ipiOk m m.deferred.length

/-- `unmap_release_batch_commit` -/
def unmapReleaseBatchCommit (a : Arch) (canWait : Bool) (m : Mach) (self : Nat) (b : Batch) (wait ipiOk : Bool) :
    Mach :=
  let m := unmapReleaseDeferredDrain a canWait m self wait ipiOk
  let hasEntries := !b.pageAddrs.isEmpty || !b.tableAddrs.isEmpty
  let (canRelease, m) :=
    if hasEntries then
      match b.mm with
      | some _ => taskMmFlushTlbAll a m self b.mm wait ipiOk
      | none => (true, archFlushTlbAll a m self)
    else (true, m)
  if !canRelease then unmapDeferRelease m b else unmapReleaseAddrs m b

/-! ## User accesses, context switches, `munmap` -/

/-- a user access to page `va` on CPU `c`: a TLB hit uses the cached frame; a miss walks the loaded space's table
and caches the translation; `none` is a page fault -/
def userAccess (m : Mach) (c va : Nat) : Option Nat × Mach :=
  match (m.cpus c).tlb.lookup va with
  | some f => (some f, m)
  | none =>
    match (m.cpus c).loaded with
    | none => (none, m)
    | some mm =>
      match m.pt mm va with
      | none => (none, m)
      | some f => (some f, m.setTlb c ((va, f) :: (m.cpus c).tlb))

/-- a context switch on CPU `c`: writing the page-table root drops the cached translations -/
def switchMm (m : Mach) (c : Nat) (mm : Option Nat) : Mach :=
  { m with cpus := Function.update m.cpus c ⟨mm, []⟩ }

/-- `munmap` of page `va` of space `mm` from CPU `self`: the entry is cleared and its frame released through a
batch -/
def unmapPage (a : Arch) (canWait : Bool) (m : Mach) (self mm va : Nat) (wait ipiOk : Bool) : Mach :=
  match m.pt mm va with
  | none => m
  | some f =>
    let m := { m with pt := Function.update m.pt mm (Function.update (m.pt mm) va none) }
    unmapReleaseBatchCommit a canWait m self ⟨some mm, [f], []⟩ wait ipiOk

/-! ## What a flush that reports success has done -/

@[simp] theorem setTlb_cpuCount (m : Mach) (c : Nat) (tlb : List (Nat × Nat)) :
    (m.setTlb c tlb).cpuCount = m.cpuCount := rfl

/-! ## The failing run -/

/-- two CPUs with space 1 loaded, whose page `0x1000` is in frame `0x5000` -/
def twoCpus : Mach where
  cpus _ := ⟨some 1, []⟩
  cpuCount := 2
  pt mm va := if mm = 1 ∧ va = 0x1000 then some 0x5000 else none
  refCount _ := 1
  deferred := []
  released := []

/-- CPU 1 reads page `0x1000`, then CPU 0 unmaps it. On riscv64 the frame is released while CPU 1 still translates
the page to it, and a later read on CPU 1 reaches the released frame; on x86-64 the same run releases the frame with
CPU 1's translation gone, and the read faults -/
theorem weak_flush_releases_stale_frame :
    0x5000 ∈ (unmapPage .riscv64 true (userAccess twoCpus 1 0x1000).2 0 1 0x1000 true true).released ∧
    (unmapPage .riscv64 true (userAccess twoCpus 1 0x1000).2 0 1 0x1000 true true).pt 1 0x1000 = none ∧
    (userAccess (unmapPage .riscv64 true (userAccess twoCpus 1 0x1000).2 0 1 0x1000 true true) 1 0x1000).1 =
      some 0x5000 ∧
    ¬ NoStale (unmapPage .riscv64 true (userAccess twoCpus 1 0x1000).2 0 1 0x1000 true true) ∧
    0x5000 ∈ (unmapPage .x86_64 true (userAccess twoCpus 1 0x1000).2 0 1 0x1000 true true).released ∧
    (userAccess (unmapPage .x86_64 true (userAccess twoCpus 1 0x1000).2 0 1 0x1000 true true) 1 0x1000).1 =
      none := by
  refine ⟨by decide, by decide, by decide, fun h => ?_, by decide, by decide⟩
  exact h 0x5000 (by decide) 1 (0x1000, 0x5000) (by decide) rfl

end Naos.TlbRelease
