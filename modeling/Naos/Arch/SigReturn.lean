/-
Lean model of `rt_sigreturn` on x86-64 and aarch64 (`arch/*/task/signal_impl.h`, `signal_arch_sigreturn`).

The user hands the kernel an arbitrary `ucontext` at its stack pointer. Both architectures copy every general register,
the flags word and the segment or PSTATE fields verbatim from it, then repair some fields:
- x86-64 (`signal_x64_restore_ptregs`): CS and SS are replaced by the user selectors only when their RPL is not 3;
  after the restore `rflags |= IF`;
- aarch64 (`signal_aarch64_restore_ptregs`): PSTATE.M[3:0] is cleared.
The kernel's own test for a user register state, `signal_arch_user_context`, is exactly RPL 3 on x86-64 and
M[3:0] = 0 on aarch64.

The task is killed with SIGSEGV (`task_exit(128 + SIGSEGV)`) only for an unreadable frame, an FP image that does not
restore, a bad alternate stack, or (aarch64) a misaligned stack pointer. The FP copy and check
(`x64_fpu_*`, `signal_aarch64_restore_fpsimd`) are taken as their boolean outcome `fpOk`.

Results:
- `sigreturn_user_state`: on both architectures every installed state passes `signal_arch_user_context`, carries IF
  (x86-64), and restores a blocked set without SIGKILL and SIGSTOP; a frame is refused only for the reasons above;
- `sigreturn_keeps_iopl`: IOPL, NT, VM (x86-64) and M[4], DAIF (aarch64) are not among the repaired fields: a frame
  asking for IOPL 3, or for all of DAIF masked, is installed as it is.
-/
import Naos.Task.Signal

namespace Naos.SigReturn

open Naos.Signal

/-! ## The alternate signal stack -/

def SS_ONSTACK : BitVec 32 := 1
def SS_DISABLE : BitVec 32 := 2
def SS_AUTODISARM : BitVec 32 := 1 <<< 31

/-- `stack_t` -/
structure StackT where
  ssSp : BitVec 64
  ssFlags : BitVec 32
  ssSize : BitVec 64
deriving DecidableEq, Repr

def ENOMEM : Int := 12

def signalAltstackValidateNew (minsigstksz : Nat) (stack : StackT) : Int :=
  if (stack.ssFlags &&& SS_DISABLE) != 0#32 then 0
  else
    let allowedFlags := SS_ONSTACK ||| SS_AUTODISARM
    if (stack.ssFlags &&& ~~~allowedFlags) != 0#32 then -EINVAL
    else if stack.ssSize.toNat < minsigstksz then -ENOMEM
    else 0

def signalAltstackDisable : StackT := ⟨0#64, SS_DISABLE, 0#64⟩

def signalAltstackStore (src : StackT) : StackT :=
  if (src.ssFlags &&& SS_DISABLE) != 0#32 then signalAltstackDisable
  else { src with ssFlags := (src.ssFlags &&& ~~~SS_ONSTACK) &&& SS_AUTODISARM }

/-- the alternate stack `signal_arch_sigreturn` restores: the frame's `uc_stack` with `SS_ONSTACK` cleared -/
def sigreturnAltstack (ucStack : StackT) : StackT :=
  { ucStack with ssFlags := ucStack.ssFlags &&& ~~~SS_ONSTACK }

/-- what `signal_arch_sigreturn` leaves for a live task: killed, or the state it returns to user mode with -/
inductive SigreturnResult (R : Type) where
  /-- `task_exit(128 + SIGSEGV)` -/
  | segv
  /-- the registers, the new blocked set and alternate stack, and the syscall return value -/
  | installed (regs : R) (blocked : Sigset) (altstack : StackT) (ret : BitVec 64)

/-! ## x86-64 -/

/-- `struct pt_regs` of x86-64 -/
structure X64PtRegs where
  r15 : BitVec 64
  r14 : BitVec 64
  r13 : BitVec 64
  r12 : BitVec 64
  r11 : BitVec 64
  r10 : BitVec 64
  r9 : BitVec 64
  r8 : BitVec 64
  rbx : BitVec 64
  rcx : BitVec 64
  rdx : BitVec 64
  rsi : BitVec 64
  rdi : BitVec 64
  rbp : BitVec 64
  rax : BitVec 64
  reserved : BitVec 64
  origRax : BitVec 64
  func : BitVec 64
  errcode : BitVec 64
  rip : BitVec 64
  cs : BitVec 64
  rflags : BitVec 64
  rsp : BitVec 64
  ss : BitVec 64
deriving DecidableEq, Repr, Inhabited

/-- the `ucontext_t` fields the x86-64 `rt_sigreturn` reads: `uc_mcontext.gregs` (23 slots), `uc_mcontext.fpregs`,
`uc_stack` and the first word of `uc_sigmask` -/
structure X64Ucontext where
  gregs : Fin 23 → BitVec 64
  fpregs : BitVec 64
  ucStack : StackT
  ucSigmask : Sigset

def X64_REG_R8 : Fin 23 := 0
def X64_REG_R9 : Fin 23 := 1
def X64_REG_R10 : Fin 23 := 2
def X64_REG_R11 : Fin 23 := 3
def X64_REG_R12 : Fin 23 := 4
def X64_REG_R13 : Fin 23 := 5
def X64_REG_R14 : Fin 23 := 6
def X64_REG_R15 : Fin 23 := 7
def X64_REG_RDI : Fin 23 := 8
def X64_REG_RSI : Fin 23 := 9
def X64_REG_RBP : Fin 23 := 10
def X64_REG_RBX : Fin 23 := 11
def X64_REG_RDX : Fin 23 := 12
def X64_REG_RAX : Fin 23 := 13
def X64_REG_RCX : Fin 23 := 14
def X64_REG_RSP : Fin 23 := 15
def X64_REG_RIP : Fin 23 := 16
def X64_REG_EFL : Fin 23 := 17
def X64_REG_CSGSFS : Fin 23 := 18
def X64_REG_ERR : Fin 23 := 19

/-- `SELECTOR_USER_CS` and `SELECTOR_USER_DS` of `irq/gate.h` -/
def SELECTOR_USER_CS : BitVec 64 := 0x20 ||| 0x3
def SELECTOR_USER_DS : BitVec 64 := 0x18 ||| 0x3

def X64_RFLAGS_IF : BitVec 64 := 1 <<< 9

/-- `ARCH_MINSIGSTKSZ` on x86-64 -/
def X64_MINSIGSTKSZ : Nat := 2048

def signalX64RestorePtregs (regs : X64PtRegs) (uc : X64Ucontext) : X64PtRegs :=
  let csgsfs := uc.gregs X64_REG_CSGSFS
  let regs :=
    { regs with
      r8 := uc.gregs X64_REG_R8, r9 := uc.gregs X64_REG_R9, r10 := uc.gregs X64_REG_R10,
      r11 := uc.gregs X64_REG_R11, r12 := uc.gregs X64_REG_R12, r13 := uc.gregs X64_REG_R13,
      r14 := uc.gregs X64_REG_R14, r15 := uc.gregs X64_REG_R15, rdi := uc.gregs X64_REG_RDI,
      rsi := uc.gregs X64_REG_RSI, rbp := uc.gregs X64_REG_RBP, rbx := uc.gregs X64_REG_RBX,
      rdx := uc.gregs X64_REG_RDX, rax := uc.gregs X64_REG_RAX, rcx := uc.gregs X64_REG_RCX,
      rsp := uc.gregs X64_REG_RSP, rip := uc.gregs X64_REG_RIP, rflags := uc.gregs X64_REG_EFL,
      cs := csgsfs &&& 0xFFFF, ss := (csgsfs >>> 48) &&& 0xFFFF, errcode := uc.gregs X64_REG_ERR, func := 0 }
  let regs := if (regs.cs &&& 0x3) != 0x3 then { regs with cs := SELECTOR_USER_CS } else regs
  if (regs.ss &&& 0x3) != 0x3 then { regs with ss := SELECTOR_USER_DS } else regs

/-- `signal_arch_sigreturn` on x86-64; `frame` is `none` when `copy_from_user` faults, `fpOk` is the outcome of the
FP image copy and check, done only when `uc_mcontext.fpregs` is not NULL -/
def signalArchSigreturnX64 (regs : X64PtRegs) (frame : Option X64Ucontext) (fpOk : Bool) :
    SigreturnResult X64PtRegs :=
  match frame with
  | none => .segv
  | some uc =>
    if uc.fpregs != 0#64 && !fpOk then .segv
    else
      let restoreAltstack := sigreturnAltstack uc.ucStack
      if signalAltstackValidateNew X64_MINSIGSTKSZ restoreAltstack < 0 then .segv
      else
        let regs := signalX64RestorePtregs regs uc
        let blocked := sigsetUserToKernel uc.ucSigmask
        let altstack := signalAltstackStore restoreAltstack
        let regs := { regs with rflags := regs.rflags ||| X64_RFLAGS_IF }
        .installed regs blocked altstack regs.rax

def signalArchUserContextX64 (regs : X64PtRegs) : Bool := (regs.cs &&& 0x3) == 0x3

section X64
variable (regs : X64PtRegs) (uc : X64Ucontext)

theorem signalX64RestorePtregs_rpl :
    ((signalX64RestorePtregs regs uc).cs &&& 0x3) = 0x3 ∧ ((signalX64RestorePtregs regs uc).ss &&& 0x3) = 0x3 := by
  unfold signalX64RestorePtregs
  dsimp only
  split_ifs with hc hs <;> simp_all [SELECTOR_USER_CS, SELECTOR_USER_DS]

-- the selector repair touches CS and SS only: every other register is the frame's
@[simp] theorem signalX64RestorePtregs_rflags : (signalX64RestorePtregs regs uc).rflags = uc.gregs X64_REG_EFL := by
  unfold signalX64RestorePtregs
  dsimp only
  split_ifs <;> rfl

@[simp] theorem signalX64RestorePtregs_rax : (signalX64RestorePtregs regs uc).rax = uc.gregs X64_REG_RAX := by
  unfold signalX64RestorePtregs
  dsimp only
  split_ifs <;> rfl

/-- the state installed for a readable frame whose FP image restores and whose alternate stack is valid -/
theorem signalArchSigreturnX64_accepted (fpOk : Bool) (hfp : uc.fpregs = 0#64 ∨ fpOk = true)
    (hst : 0 ≤ signalAltstackValidateNew X64_MINSIGSTKSZ (sigreturnAltstack uc.ucStack)) :
    signalArchSigreturnX64 regs (some uc) fpOk =
      .installed { signalX64RestorePtregs regs uc with rflags := uc.gregs X64_REG_EFL ||| X64_RFLAGS_IF }
        (sigsetUserToKernel uc.ucSigmask) (signalAltstackStore (sigreturnAltstack uc.ucStack)) (uc.gregs X64_REG_RAX) := by
  have hfp' : (uc.fpregs != 0#64 && !fpOk) = false := by
    rcases hfp with h | h <;> simp [h]
  simp [signalArchSigreturnX64, hfp', not_lt.mpr hst]

theorem signalArchSigreturnX64_installed {fpOk : Bool} {r : X64PtRegs} {b : Sigset} {a : StackT} {ret : BitVec 64}
    (h : signalArchSigreturnX64 regs (some uc) fpOk = .installed r b a ret) :
    r = { signalX64RestorePtregs regs uc with rflags := uc.gregs X64_REG_EFL ||| X64_RFLAGS_IF } ∧
      b = sigsetUserToKernel uc.ucSigmask := by
  unfold signalArchSigreturnX64 at h
  dsimp only at h
  split_ifs at h
  cases h
  exact ⟨by simp, rfl⟩

end X64

/-! ## aarch64 -/

/-- `struct pt_regs` of aarch64; `x` holds x0..x30 -/
structure A64PtRegs where
  pc : BitVec 64
  cpsr : BitVec 64
  originX0 : BitVec 64
  syscallno : BitVec 64
  spEl0 : BitVec 64
  x : Fin 31 → BitVec 64
deriving Inhabited

/-- the `signal_aarch64_ucontext_t` fields `rt_sigreturn` reads -/
structure A64Ucontext where
  regs : Fin 31 → BitVec 64
  sp : BitVec 64
  pc : BitVec 64
  pstate : BitVec 64
  ucStack : StackT
  ucSigmask : Sigset

def NO_SYSCALL : BitVec 64 := BitVec.allOnes 64

/-- `ARCH_MINSIGSTKSZ` on aarch64 -/
def A64_MINSIGSTKSZ : Nat := 5120

/-- the register part of `signal_aarch64_restore_ptregs`; its result is that of the FP/SIMD restore -/
def signalAarch64RestorePtregs (regs : A64PtRegs) (uc : A64Ucontext) : A64PtRegs :=
  let regs := { regs with x := uc.regs, spEl0 := uc.sp, pc := uc.pc, cpsr := uc.pstate }
  let regs := { regs with originX0 := regs.x 0, syscallno := NO_SYSCALL }
  if (regs.cpsr &&& 0xF) != 0#64 then { regs with cpsr := regs.cpsr &&& ~~~0xF } else regs

/-- `signal_arch_sigreturn` on aarch64; `frame` is `none` when `copy_from_user` faults, `fpOk` is the outcome of
`signal_aarch64_restore_fpsimd` -/
def signalArchSigreturnA64 (regs : A64PtRegs) (frame : Option A64Ucontext) (fpOk : Bool) :
    SigreturnResult A64PtRegs :=
  if (regs.spEl0 &&& 0xF) != 0#64 then .segv
  else
    match frame with
    | none => .segv
    | some uc =>
      let restoreAltstack := sigreturnAltstack uc.ucStack
      if signalAltstackValidateNew A64_MINSIGSTKSZ restoreAltstack < 0 then .segv
      else
        let regs := signalAarch64RestorePtregs regs uc
        if !fpOk then .segv
        else .installed regs (sigsetUserToKernel uc.ucSigmask) (signalAltstackStore restoreAltstack) (regs.x 0)

def signalArchUserContextA64 (regs : A64PtRegs) : Bool := (regs.cpsr &&& 0xF) == 0#64

theorem and_not_eq_self_of_and_eq_zero {w : Nat} {x m : BitVec w} (h : x &&& m = 0#w) : x &&& ~~~m = x := by
  apply BitVec.eq_of_getLsbD_eq
  intro i hi
  have hbit := congrArg (fun v => v.getLsbD i) h
  simp only [BitVec.getLsbD_and, BitVec.getLsbD_zero] at hbit
  simp only [BitVec.getLsbD_and, BitVec.getLsbD_not, hi, decide_true, Bool.true_and]
  cases hx : x.getLsbD i <;> simp_all

section A64
variable (regs : A64PtRegs) (uc : A64Ucontext)

/-- PSTATE after the restore is the frame's with M[3:0] cleared, whether or not the frame had them set -/
@[simp] theorem signalAarch64RestorePtregs_cpsr : (signalAarch64RestorePtregs regs uc).cpsr = uc.pstate &&& ~~~0xF := by
  unfold signalAarch64RestorePtregs
  dsimp only
  split_ifs with h
  · rfl
  · exact (and_not_eq_self_of_and_eq_zero (by simpa using h)).symm

@[simp] theorem signalAarch64RestorePtregs_x : (signalAarch64RestorePtregs regs uc).x = uc.regs := by
  unfold signalAarch64RestorePtregs
  dsimp only
  split_ifs <;> rfl

theorem signalAarch64RestorePtregs_el0 : ((signalAarch64RestorePtregs regs uc).cpsr &&& 0xF) = 0#64 := by
  rw [signalAarch64RestorePtregs_cpsr, BitVec.and_assoc, BitVec.not_and_self]
  exact BitVec.and_zero

/-- the state installed for an aligned stack pointer, a readable frame whose alternate stack is valid, and an
FP/SIMD record that restores -/
theorem signalArchSigreturnA64_accepted (hsp : (regs.spEl0 &&& 0xF) = 0#64)
    (hst : 0 ≤ signalAltstackValidateNew A64_MINSIGSTKSZ (sigreturnAltstack uc.ucStack)) :
    signalArchSigreturnA64 regs (some uc) true =
      .installed (signalAarch64RestorePtregs regs uc) (sigsetUserToKernel uc.ucSigmask)
        (signalAltstackStore (sigreturnAltstack uc.ucStack)) (uc.regs 0) := by
  simp only [signalArchSigreturnA64, hsp, bne_self_eq_false, Bool.false_eq_true, ↓reduceIte, not_lt.mpr hst,
    Bool.not_true, signalAarch64RestorePtregs_x]

theorem signalArchSigreturnA64_installed {fpOk : Bool} {r : A64PtRegs} {b : Sigset} {a : StackT} {ret : BitVec 64}
    (h : signalArchSigreturnA64 regs (some uc) fpOk = .installed r b a ret) :
    r = signalAarch64RestorePtregs regs uc ∧ b = sigsetUserToKernel uc.ucSigmask := by
  unfold signalArchSigreturnA64 at h
  dsimp only at h
  split_ifs at h
  cases h
  exact ⟨rfl, rfl⟩

end A64

/-! ## What the installed state is -/

/-- On both architectures the installed state passes the kernel's own user-context test, the restored blocked set
holds neither SIGKILL nor SIGSTOP, and the flags word is the frame's own up to the repaired bits: IF on x86-64,
M[3:0] on aarch64. A readable frame is refused only for an FP image that does not restore, an invalid alternate
stack, or (aarch64) a misaligned stack pointer. -/
theorem sigreturn_user_state :
    (∀ regs uc fpOk r b a ret, signalArchSigreturnX64 regs (some uc) fpOk = .installed r b a ret →
        signalArchUserContextX64 r = true ∧ (r.ss &&& 0x3) = 0x3 ∧
          r.rflags = uc.gregs X64_REG_EFL ||| X64_RFLAGS_IF ∧ KillStopFree b) ∧
    (∀ regs uc fpOk, (uc.fpregs = 0#64 ∨ fpOk = true) →
        0 ≤ signalAltstackValidateNew X64_MINSIGSTKSZ (sigreturnAltstack uc.ucStack) →
        signalArchSigreturnX64 regs (some uc) fpOk ≠ .segv) ∧
    (∀ regs uc fpOk r b a ret, signalArchSigreturnA64 regs (some uc) fpOk = .installed r b a ret →
        signalArchUserContextA64 r = true ∧ r.cpsr = uc.pstate &&& ~~~0xF ∧ KillStopFree b) ∧
    (∀ regs uc, (regs.spEl0 &&& 0xF) = 0#64 →
        0 ≤ signalAltstackValidateNew A64_MINSIGSTKSZ (sigreturnAltstack uc.ucStack) →
        signalArchSigreturnA64 regs (some uc) true ≠ .segv) := by
  refine ⟨?x64, ?x64Accept, ?a64, ?a64Accept⟩
  case x64 =>
    intro regs uc fpOk r b a ret h
    obtain ⟨rfl, rfl⟩ := signalArchSigreturnX64_installed regs uc h
    have hrpl := signalX64RestorePtregs_rpl regs uc
    exact ⟨beq_iff_eq.mpr hrpl.1, hrpl.2, rfl, killStopFree_userToKernel _⟩
  case x64Accept =>
    intro regs uc fpOk hfp hst
    rw [signalArchSigreturnX64_accepted regs uc fpOk hfp hst]
    nofun
  case a64 =>
    intro regs uc fpOk r b a ret h
    obtain ⟨rfl, rfl⟩ := signalArchSigreturnA64_installed regs uc h
    exact ⟨beq_iff_eq.mpr (signalAarch64RestorePtregs_el0 regs uc), signalAarch64RestorePtregs_cpsr regs uc,
      killStopFree_userToKernel _⟩
  case a64Accept =>
    intro regs uc hsp hst
    rw [signalArchSigreturnA64_accepted regs uc hsp hst]
    nofun

/-- a frame asking for IOPL 3 and NT (RFLAGS 0x7202) with the kernel's own user selectors -/
def x64IoplFrame : X64Ucontext where
  gregs i :=
    if i = X64_REG_EFL then 0x7202
    else if i = X64_REG_CSGSFS then (SELECTOR_USER_DS <<< 48) ||| SELECTOR_USER_CS
    else 0#64
  fpregs := 0#64
  ucStack := signalAltstackDisable
  ucSigmask := 0#64

/-- a frame asking for EL0 with D, A, I and F masked and M[4] (AArch32 state) set -/
def a64DaifFrame : A64Ucontext where
  regs _ := 0#64
  sp := 0#64
  pc := 0#64
  pstate := 0x3D0
  ucStack := signalAltstackDisable
  ucSigmask := 0#64

theorem sigreturn_user_state_frames :
    signalArchSigreturnX64 default (some x64IoplFrame) true ≠ .segv ∧
      signalArchSigreturnA64 default (some a64DaifFrame) true ≠ .segv :=
  ⟨sigreturn_user_state.2.1 default x64IoplFrame true (Or.inl rfl) (by decide),
    sigreturn_user_state.2.2.2 default a64DaifFrame (by decide) (by decide)⟩

/-- Neither architecture repairs the privilege-relevant flags: the IOPL 3 + NT frame is installed with IOPL 3 and
NT set, the DAIF frame with D, A, I, F and M[4] set. -/
theorem sigreturn_keeps_iopl :
    (∃ r b a ret, signalArchSigreturnX64 default (some x64IoplFrame) true = .installed r b a ret ∧
        (r.rflags >>> 12) &&& 0x3 = 0x3 ∧ r.rflags.getLsbD 14 = true) ∧
    (∃ r b a ret, signalArchSigreturnA64 default (some a64DaifFrame) true = .installed r b a ret ∧
        r.cpsr &&& 0x3D0 = 0x3D0) := by
  refine ⟨⟨_, _, _, _, signalArchSigreturnX64_accepted _ _ true (Or.inl rfl) (by decide), ?_⟩,
    ⟨_, _, _, _, signalArchSigreturnA64_accepted _ _ (by decide) (by decide), ?_⟩⟩
  · decide
  · rw [signalAarch64RestorePtregs_cpsr]
    decide

end Naos.SigReturn
