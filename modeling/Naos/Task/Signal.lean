/-
Lean model of the per-task signal bookkeeping of `task/signal.c`.

The kernel keeps three 64-bit words per task: the pending set `signal`, the set `pending_signal.info_mask` of pending
signals whose `siginfo` was saved, and the blocked set `blocked`. Unlike the user ABI, where bit `sig - 1` stands for
signal `sig`, the kernel words are indexed by the signal number itself (`signal_sigbit sig = 1 << sig`). Bit 0 is
unused, so a 64-bit kernel word can name signals 1..63 only: `SIGNAL_MAX_MASKED_SIG = 63`, and every pending or
blocked test goes through `signal_sig_maskable`. Signal 64 is in range (`MAXSIG = 65`) for `kill` and `sigaction`, but
`task_commit_signal` never records it.

Operations, each one critical section under `siglock` (`Op`, `step`):
- `commit`: `task_commit_signal`;
- `ssetmask` / `sigprocmask`: `sys_ssetmask` and its user-copy wrapper `sys_sigprocmask`;
- `sigaction`: `sys_sigaction`;
- `timedwait`: one pass of the `sys_rt_sigtimedwait` loop;
- `signalfd`: `task_signal_take_signalfd`;
- `sigsuspend`: the mask switch of `sys_sigsuspend` (its wait loop only re-reads the state);
- `deliver`: one pass of the `task_signal` loop. A whole `task_signal` call is a run of passes; a ptrace stop hands
  the signal to the tracer, whose resume signal re-enters through `commit` (`ptrace_resume_from_signal`).

Results:
- `user_to_kernel_roundtrip`: `sigset_kernel_to_user ∘ sigset_user_to_kernel` clears exactly the SIGKILL, SIGSTOP and
  signal-64 bits of a user mask;
- `step_inv`, `run_inv`: the invariant `Inv` (info_mask ⊆ pending; SIGKILL and SIGSTOP never blocked, in no handler
  mask, never given a handler) holds along every run;
- `step_pending`, `consumption_between_commits`: a pending signal leaves the pending set only through one delivery
  pass, one sigtimedwait pass or one signalfd read that returns it; two consumptions of the same signal are separated
  by a commit of it;
- `deliver_not_blocked`: a delivery pass never takes a blocked signal other than SIGKILL or SIGSTOP;
- `signal_contract`: all of the above along every run from a state satisfying `Inv`, together with the mask that
  `sigprocmask` reports; `signal64_lost`: signal 64 is accepted and dropped.
-/
import Mathlib

namespace Naos.Signal

/-! ## Signal numbers and signal sets -/

/-- `sigset_t` is `uint64_t` -/
abbrev Sigset := BitVec 64

def MINSIG : Nat := 1
def MAXSIG : Nat := 65
/-- `SIGNAL_MAX_MASKED_SIG`: `sizeof(sigset_t) * 8 - 1` -/
def SIGNAL_MAX_MASKED_SIG : Nat := 8 * 8 - 1

def SIGQUIT : Nat := 3
def SIGILL : Nat := 4
def SIGTRAP : Nat := 5
def SIGABRT : Nat := 6
def SIGIOT : Nat := SIGABRT
def SIGBUS : Nat := 7
def SIGFPE : Nat := 8
def SIGKILL : Nat := 9
def SIGSEGV : Nat := 11
def SIGCHLD : Nat := 17
def SIGCONT : Nat := 18
def SIGSTOP : Nat := 19
def SIGTSTP : Nat := 20
def SIGTTIN : Nat := 21
def SIGTTOU : Nat := 22
def SIGURG : Nat := 23
def SIGXCPU : Nat := 24
def SIGXFSZ : Nat := 25
def SIGWINCH : Nat := 28
def SIGSYS : Nat := 31
def SIGUNUSED : Nat := SIGSYS

def signalSigInRange (sig : Nat) : Bool := MINSIG ≤ sig && sig < MAXSIG

def signalSigMaskable (sig : Nat) : Bool := MINSIG ≤ sig && sig ≤ SIGNAL_MAX_MASKED_SIG

/-- `signal_sigbit`. The C shift is undefined for `sig = 64`; no modelled caller evaluates it there, every use is
behind `signal_sig_maskable` or a loop bounded by `SIGNAL_MAX_MASKED_SIG`. -/
def signalSigbit (sig : Nat) : Sigset := 1#64 <<< sig

def sigsetUserToKernel (userMask : Sigset) : Sigset :=
  let k := userMask <<< 1
  let k := if signalSigMaskable SIGKILL then k &&& ~~~(signalSigbit SIGKILL) else k
  if signalSigMaskable SIGSTOP then k &&& ~~~(signalSigbit SIGSTOP) else k

def sigsetKernelToUser (kernelMask : Sigset) : Sigset := kernelMask >>> 1

def signalSigsetHas (set : Sigset) (sig : Nat) : Bool :=
  if !signalSigMaskable sig then false else (set &&& signalSigbit sig) != 0#64

/-- the maskable signals in the order every pick loop scans them: `for (sig = MINSIG; sig <= 63; sig++)` -/
def maskableSigs : List Nat := List.range' MINSIG SIGNAL_MAX_MASKED_SIG

@[simp] theorem getLsbD_signalSigbit (sig i : Nat) :
    (signalSigbit sig).getLsbD i = (decide (i < 64) && decide (i = sig)) := by
  simp only [signalSigbit, BitVec.getLsbD_shiftLeft, BitVec.getLsbD_one]
  grind

theorem and_sigbit_eq_zero_iff (set : Sigset) {sig : Nat} (h : sig < 64) :
    set &&& signalSigbit sig = 0#64 ↔ set.getLsbD sig = false := by
  constructor
  · intro h0
    have hbit := congrArg (fun x : Sigset => x.getLsbD sig) h0
    simp only [BitVec.getLsbD_and, getLsbD_signalSigbit, BitVec.getLsbD_zero, h, decide_true,
      Bool.and_true] at hbit
    exact hbit
  · intro hb
    apply BitVec.eq_of_getLsbD_eq
    intro i _
    simp only [BitVec.getLsbD_and, getLsbD_signalSigbit, BitVec.getLsbD_zero]
    by_cases hs : i = sig
    · subst hs; simp only [hb, Bool.false_and]
    · simp only [hs, decide_false, Bool.and_false]

theorem and_sigbit_ne_zero (set : Sigset) {sig : Nat} (h : sig < 64) :
    ((set &&& signalSigbit sig) != 0#64) = set.getLsbD sig := by
  have key := and_sigbit_eq_zero_iff set h
  cases hb : set.getLsbD sig
  · simpa using key.2 hb
  · have : ¬ set &&& signalSigbit sig = 0#64 := fun h0 => by simp [key.1 h0] at hb
    simpa using this

theorem signalSigMaskable_iff {sig : Nat} : signalSigMaskable sig = true ↔ 1 ≤ sig ∧ sig ≤ 63 := by
  simp only [signalSigMaskable, Bool.and_eq_true, decide_eq_true_eq]
  simp [MINSIG, SIGNAL_MAX_MASKED_SIG]

theorem signalSigInRange_iff {sig : Nat} : signalSigInRange sig = true ↔ 1 ≤ sig ∧ sig ≤ 64 := by
  simp only [signalSigInRange, Bool.and_eq_true, decide_eq_true_eq]
  simp [MINSIG, MAXSIG]
  omega

theorem signalSigsetHas_eq (set : Sigset) (sig : Nat) :
    signalSigsetHas set sig = (signalSigMaskable sig && set.getLsbD sig) := by
  unfold signalSigsetHas
  cases hm : signalSigMaskable sig
  · simp
  · have : sig < 64 := by have := (signalSigMaskable_iff).1 hm; omega
    simp [and_sigbit_ne_zero set this]

theorem mem_maskableSigs {sig : Nat} : sig ∈ maskableSigs ↔ signalSigMaskable sig = true := by
  rw [signalSigMaskable_iff]
  simp only [maskableSigs, List.mem_range'_1, MINSIG, SIGNAL_MAX_MASKED_SIG]
  omega

theorem sigsetUserToKernel_eq (u : Sigset) :
    sigsetUserToKernel u = u <<< 1 &&& ~~~(signalSigbit SIGKILL) &&& ~~~(signalSigbit SIGSTOP) := by
  simp [sigsetUserToKernel, signalSigMaskable, SIGKILL, SIGSTOP, MINSIG, SIGNAL_MAX_MASKED_SIG]

/-- bit `i` of the kernel image of a user mask is the user bit `i - 1`, cleared at SIGKILL and SIGSTOP -/
theorem getLsbD_userToKernel (u : Sigset) (i : Nat) :
    (sigsetUserToKernel u).getLsbD i =
      (decide (i < 64) && decide (0 < i) && u.getLsbD (i - 1) && decide (i ≠ SIGKILL) && decide (i ≠ SIGSTOP)) := by
  rw [sigsetUserToKernel_eq]
  simp only [BitVec.getLsbD_and, BitVec.getLsbD_not, getLsbD_signalSigbit, BitVec.getLsbD_shiftLeft]
  grind

/-- Reading a mask back: the user-visible bit `i` survives `sigset_user_to_kernel` and `sigset_kernel_to_user`
exactly when it is not the bit of SIGKILL (8), of SIGSTOP (18) or of signal 64 (63). -/
theorem user_to_kernel_roundtrip (u : Sigset) (i : Nat) :
    (sigsetKernelToUser (sigsetUserToKernel u)).getLsbD i =
      (u.getLsbD i && decide (i ≠ SIGKILL - 1) && decide (i ≠ SIGSTOP - 1) && decide (i < 63)) := by
  simp only [sigsetKernelToUser, BitVec.getLsbD_ushiftRight, getLsbD_userToKernel]
  simp only [SIGKILL, SIGSTOP]
  grind

/-- the kernel image of a user mask never holds SIGKILL or SIGSTOP -/
theorem userToKernel_kill_stop (u : Sigset) :
    (sigsetUserToKernel u).getLsbD SIGKILL = false ∧ (sigsetUserToKernel u).getLsbD SIGSTOP = false := by
  simp [getLsbD_userToKernel]

/-! ## Task signal state -/

def SIG_DFL : Nat := 0
def SIG_IGN : Nat := 1

def SA_NODEFER : BitVec 32 := 0x40000000
def SA_RESETHAND : BitVec 32 := 0x80000000
def SA_RESTORER : BitVec 32 := 0x04000000

def SI_KERNEL : Int := 0x80
def SI_DETHREAD : Int := -7

def SIG_BLOCK : Int := 0
def SIG_UNBLOCK : Int := 1
def SIG_SETMASK : Int := 2

def EAGAIN : Int := 11
def EFAULT : Int := 14
def EINVAL : Int := 22

/-- `siginfo_t`: the three header words the kernel fills, and the `_sifields` union carried verbatim -/
structure Siginfo where
  siSigno : Int
  siErrno : Int
  siCode : Int
  sifields : Nat
deriving DecidableEq, Repr

/-- a `memset` to zero -/
def Siginfo.zero : Siginfo := ⟨0, 0, 0, 0⟩

def signalFillKernelSiginfo (sig : Nat) (code : Int) : Siginfo := { Siginfo.zero with siSigno := sig, siCode := code }

/-- `sigaction_t`; a handler is a user address, `SIG_DFL` and `SIG_IGN` are 0 and 1 -/
structure Sigaction where
  saHandler : Nat
  saMask : Sigset
  saFlags : BitVec 32
  saRestorer : Nat
deriving DecidableEq, Repr

/-- the zeroed slot of a fresh `task_sighand_t` -/
def Sigaction.zero : Sigaction := ⟨SIG_DFL, 0#64, 0#32, 0⟩

inductive SignalInternal where
  | core
  | term
  | ign
  | stop
  | cont
deriving DecidableEq, Repr

/-- the `signal_set_default` calls of `signal_init`, in order -/
def signalInitDefaults : List (Nat × SignalInternal) :=
  [(SIGABRT, .core), (SIGBUS, .core), (SIGCHLD, .ign), (SIGCONT, .cont), (SIGFPE, .core), (SIGILL, .core),
    (SIGIOT, .core), (SIGQUIT, .core), (SIGSEGV, .core), (SIGSTOP, .stop), (SIGTSTP, .stop), (SIGSYS, .core),
    (SIGTRAP, .core), (SIGTTIN, .stop), (SIGTTOU, .stop), (SIGUNUSED, .core), (SIGURG, .ign), (SIGWINCH, .ign),
    (SIGXCPU, .core), (SIGXFSZ, .core)]

/-- `signal_internal_decisions` after `signal_init`: every slot TERM, then the defaults in order -/
def signalInternalDecisions : Nat → SignalInternal :=
  signalInitDefaults.foldl (fun d p => fun sig => if sig = p.1 then p.2 else d sig) (fun _ => .term)

inductive TaskState where
  | creating
  | running
  | ready
  | blocking
  | uninterruptable
  | died
deriving DecidableEq, Repr

/-- the signal fields of one task: `task_signal_info_t`, its `sighand` actions, and the task fields the code reads -/
structure SigState where
  isKernel : Bool
  state : TaskState
  status : Int
  signal : Sigset
  infoMask : Sigset
  info : Nat → Siginfo
  blocked : Sigset
  sigsuspendOldMask : Sigset
  sigsuspendActive : Bool
  actions : Nat → Sigaction

/-- signal `sig` is pending -/
def SigState.pending (s : SigState) (sig : Nat) : Prop := s.signal.getLsbD sig = true

instance (s : SigState) (sig : Nat) : Decidable (s.pending sig) := inferInstanceAs (Decidable (_ = true))

/-! ## The locked helpers -/

def signalIsBlocked (blocked : Sigset) (sig : Nat) : Bool :=
  if sig = SIGKILL ∨ sig = SIGSTOP then false else signalSigsetHas blocked sig

def signalActionIgnored (sig : Nat) (action : Sigaction) : Bool :=
  if sig = SIGKILL ∨ sig = SIGSTOP then false
  else if action.saHandler = SIG_IGN then true
  else if action.saHandler = SIG_DFL ∧ signalInternalDecisions sig = .ign then true
  else false

/-- `signal_pick_from_set_locked`: the lowest pending signal of `set`, 0 if none -/
def signalPickFromSetLocked (s : SigState) (set : Sigset) : Nat :=
  let pending := s.signal &&& set
  (maskableSigs.find? (fun sig => (pending &&& signalSigbit sig) != 0#64)).getD 0

/-- `signal_pick_deliverable_locked`: the lowest pending signal that is not blocked, 0 if none -/
def signalPickDeliverableLocked (s : SigState) : Nat :=
  (maskableSigs.find? (fun sig => (s.signal &&& signalSigbit sig) != 0#64 && !signalIsBlocked s.blocked sig)).getD 0

/-- `signal_take_pending_locked`: clear the pending bit and hand out the saved siginfo, or a kernel one -/
def signalTakePendingLocked (s : SigState) (sig : Nat) : Siginfo × SigState :=
  if signalSigMaskable sig then
    let bit := signalSigbit sig
    let s := { s with signal := s.signal &&& ~~~bit }
    if (s.infoMask &&& bit) != 0#64 then
      (s.info sig, { s with infoMask := s.infoMask &&& ~~~bit, info := Function.update s.info sig Siginfo.zero })
    else (signalFillKernelSiginfo sig SI_KERNEL, s)
  else (signalFillKernelSiginfo sig SI_KERNEL, s)

def signalHasDeliverableOutsideSetLocked (s : SigState) (waitSet : Sigset) : Bool :=
  maskableSigs.any fun sig =>
    (s.signal &&& signalSigbit sig) != 0#64 && !signalIsBlocked s.blocked sig &&
      (waitSet &&& signalSigbit sig) == 0#64 && !signalActionIgnored sig (s.actions sig)

/-! ## The entry points -/

def taskCommitSignal (s : SigState) (sig : Nat) (info : Option Siginfo) : SigState :=
  if s.isKernel || !signalSigInRange sig || s.state == .died then s
  else
    let kinfo := { info.getD (signalFillKernelSiginfo sig SI_KERNEL) with siSigno := sig }
    if signalSigMaskable sig then
      let bit := signalSigbit sig
      let s :=
        if (s.signal &&& bit) == 0#64 then
          { s with info := Function.update s.info sig kinfo, infoMask := s.infoMask ||| bit }
        else s
      { s with signal := s.signal ||| bit }
    else s

def signalSigsetSizeValid (sigsetsize : Nat) : Bool := 4 ≤ sigsetsize && sigsetsize ≤ 8

/-- `sys_ssetmask` on kernel pointers: the return value, the old mask written to `*oset`, and the new state -/
def sysSsetmask (s : SigState) (how : Int) (nset : Option Sigset) (sigsetsize : Nat) : (Int × Sigset) × SigState :=
  if !signalSigsetSizeValid sigsetsize then ((-EINVAL, 0#64), s)
  else
    let oset := sigsetKernelToUser s.blocked
    match nset with
    | none => ((0, oset), s)
    | some n =>
      let safe := sigsetUserToKernel n
      if how = SIG_BLOCK then ((0, oset), { s with blocked := s.blocked ||| safe })
      else if how = SIG_UNBLOCK then ((0, oset), { s with blocked := s.blocked &&& ~~~safe })
      else if how = SIG_SETMASK then ((0, oset), { s with blocked := safe })
      else ((-EINVAL, oset), s)

/-- a user pointer argument: NULL, a faulting address, or readable memory holding a value -/
inductive UserArg (α : Type) where
  | null
  | fault
  | val (a : α)

/-- `copy_from_user` of the first `n` bytes of a little-endian 64-bit word into a zeroed word -/
def copyFromUserBytes (n : Nat) (w : Sigset) : Sigset := w &&& (BitVec.allOnes 64 >>> (64 - 8 * n))

/-- `copy_to_user` of the first `n` bytes of `v` over the user word `w` -/
def copyToUserBytes (n : Nat) (w v : Sigset) : Sigset :=
  (w &&& ~~~(BitVec.allOnes 64 >>> (64 - 8 * n))) ||| copyFromUserBytes n v

/-- `sys_sigprocmask`: the return value, what the user's `oset` word holds afterwards, and the new state -/
def sysSigprocmask (s : SigState) (how : Int) (nsetU : UserArg Sigset) (osetU : UserArg Sigset) (sigsetsize : Nat) :
    (Int × Option Sigset) × SigState :=
  if !signalSigsetSizeValid sigsetsize then ((-EINVAL, none), s)
  else
    match nsetU with
    | .fault => ((-EFAULT, none), s)
    | _ =>
      let nset := match nsetU with
        | .val w => some (copyFromUserBytes sigsetsize w)
        | _ => none
      let ((ret, oset), s) := sysSsetmask s how nset sigsetsize
      if ret < 0 then ((ret, none), s)
      else
        match osetU with
        | .null => ((ret, none), s)
        | .fault => ((-EFAULT, none), s)
        | .val w => ((ret, some (copyToUserBytes sigsetsize w oset)), s)

/-- `signal_kernel_sigaction_t`, the user-side layout read and written by `sys_sigaction` -/
structure KSigaction where
  handler : Nat
  flags : BitVec 64
  restorer : Nat
  mask : Sigset
deriving DecidableEq, Repr

/-- the kernel action `sys_sigaction` builds from a user action, or `-EINVAL` from the restorer check
(`SIGNAL_ARCH_VALIDATE_RESTORER` is set on x86-64 and aarch64) -/
def sigactionFromUser (ua : KSigaction) : Except Int Sigaction :=
  let na : Sigaction :=
    { saHandler := ua.handler, saFlags := ua.flags.setWidth 32, saRestorer := ua.restorer,
      saMask := sigsetUserToKernel ua.mask }
  if na.saHandler ≠ SIG_DFL ∧ na.saHandler ≠ SIG_IGN ∧ (na.saFlags &&& SA_RESTORER) ≠ 0#32 ∧ na.saRestorer = 0 then
    .error (-EINVAL)
  else .ok na

/-- `sys_sigaction`: the return value, the old action written back, and the new state -/
def sysSigaction (s : SigState) (sig : Nat) (action : UserArg KSigaction) (oldaction : UserArg Unit)
    (sigsetsize : Nat) : (Int × Option KSigaction) × SigState :=
  if !signalSigInRange sig || sig = SIGKILL || sig = SIGSTOP then ((-EINVAL, none), s)
  else if !signalSigsetSizeValid sigsetsize then ((-EINVAL, none), s)
  else
    let newAction : Except Int (Option Sigaction) :=
      match action with
      | .null => .ok none
      | .fault => .error (-EFAULT)
      | .val ua => (sigactionFromUser ua).map some
    match newAction with
    | .error e => ((e, none), s)
    | .ok na =>
      let old := s.actions sig
      let s := match na with
        | some a => { s with actions := Function.update s.actions sig a }
        | none => s
      match oldaction with
      | .null => ((0, none), s)
      | .fault => ((-EFAULT, none), s)
      | .val () =>
        ((0, some ⟨old.saHandler, old.saFlags.signExtend 64, old.saRestorer, sigsetKernelToUser old.saMask⟩), s)

/-- what one pass of the `sys_rt_sigtimedwait` loop returns -/
inductive TimedwaitPass where
  | signal (sig : Nat) (info : Siginfo)
  | eintr
  | eagain
  | wait

/-- one pass of the `sys_rt_sigtimedwait` loop, for the already copied user wait set; `timedOut` is the deadline
test -/
def sysRtSigtimedwaitPass (s : SigState) (userWaitSet : Sigset) (timedOut : Bool) : TimedwaitPass × SigState :=
  let waitSet := sigsetUserToKernel userWaitSet
  let sig := signalPickFromSetLocked s waitSet
  if sig ≠ 0 then
    let (info, s) := signalTakePendingLocked s sig
    (.signal sig info, s)
  else if signalHasDeliverableOutsideSetLocked s waitSet then (.eintr, s)
  else if timedOut then (.eagain, s)
  else (.wait, s)

/-- `task_signal_take_signalfd`: the signal read, with its siginfo -/
def taskSignalTakeSignalfd (s : SigState) (userMask : Sigset) : Option (Nat × Siginfo) × SigState :=
  let waitSet := sigsetUserToKernel userMask
  let sig := signalPickFromSetLocked s waitSet
  if sig ≠ 0 then
    let (info, s) := signalTakePendingLocked s sig
    (some (sig, info), s)
  else (none, s)

/-- the mask switch of `sys_sigsuspend`, for the already copied user mask -/
def sysSigsuspend (s : SigState) (userMask : Sigset) : SigState :=
  { s with blocked := sigsetUserToKernel userMask, sigsuspendOldMask := s.blocked, sigsuspendActive := true }

def ptraceSignalShouldStop (sig : Nat) : Bool :=
  sig = SIGSTOP ∨ sig = SIGTRAP ∨ sig = SIGTSTP ∨ sig = SIGTTIN ∨ sig = SIGTTOU

/-- what one pass of the `task_signal` loop does -/
inductive Delivery where
  /-- no pass at all (group exit, kernel, dead or uninterruptible task, not a user context), or nothing
  deliverable -/
  | none
  /-- taken and handed to the tracer; the loop goes on -/
  | ptraceStop (sig : Nat) (info : Siginfo)
  /-- taken and dropped; the loop goes on -/
  | ignored (sig : Nat)
  /-- `task_exit_thread(128 + sig)` or `task_exit(code)` -/
  | exit (sig : Nat) (code : Int)
  /-- SIGNAL_INTERNAL_STOP -/
  | stop (sig : Nat)
  /-- SIGNAL_INTERNAL_CONT -/
  | cont (sig : Nat)
  /-- a frame for the handler, with the mask it restores on `rt_sigreturn` -/
  | handler (sig : Nat) (info : Siginfo) (restoreMask : Sigset)

/-- the signal a pass took, if any -/
def Delivery.sig? : Delivery → Option Nat
  | .none => Option.none
  | .ptraceStop sig _ | .ignored sig | .exit sig _ | .stop sig | .cont sig | .handler sig _ _ => some sig

/-- the state once a handler frame is written: `SA_RESETHAND` resets the action, then the handler mask and, without
`SA_NODEFER`, the signal itself are blocked -/
def taskSignalHandlerFrame (s : SigState) (sig : Nat) (action : Sigaction) : SigState :=
  let s := if (action.saFlags &&& SA_RESETHAND) != 0#32 then
      { s with actions := Function.update s.actions sig { s.actions sig with saHandler := SIG_DFL } }
    else s
  let blocked := s.blocked ||| action.saMask
  let blocked :=
    if (action.saFlags &&& SA_NODEFER) == 0#32 && signalSigMaskable sig then blocked ||| signalSigbit sig
    else blocked
  { s with blocked := blocked }

/-- the action `task_signal` takes for a signal it has taken: ptrace, ignore, default action, or handler frame -/
def taskSignalDispatch (s : SigState) (sig : Nat) (info : Siginfo) (traced frameOk : Bool) : Delivery × SigState :=
  let action := s.actions sig
  let restoreMask := if s.sigsuspendActive then s.sigsuspendOldMask else s.blocked
  let s := { s with sigsuspendActive := false }
  if traced && ptraceSignalShouldStop sig then (.ptraceStop sig info, s)
  else if signalActionIgnored sig action then (.ignored sig, s)
  else if action.saHandler = SIG_DFL then
    if info.siCode = SI_DETHREAD then (.exit sig (128 + sig), { s with state := .died })
    else
      match signalInternalDecisions sig with
      | .term | .core => (.exit sig (128 + sig), { s with state := .died })
      | .stop => (.stop sig, { s with status := 128 + sig })
      | .cont => (.cont sig, { s with state := .ready })
      | .ign => (.ignored sig, s)
  else if !frameOk then (.exit sig (128 + SIGSEGV), { s with state := .died })
  else (.handler sig info restoreMask, taskSignalHandlerFrame s sig action)

/-- one pass of `task_signal`; `groupExit`, `userContext`, `traced` and `frameOk` are what
`task_group_exit_code`, `signal_arch_user_context`, `ptrace_is_traced` and `signal_arch_setup_frame` report -/
def taskSignalPass (s : SigState) (groupExit userContext traced frameOk : Bool) : Delivery × SigState :=
  if groupExit then (.none, { s with state := .died })
  else if s.isKernel || s.state == .died || s.state == .uninterruptable || !userContext then (.none, s)
  else
    let sig := signalPickDeliverableLocked s
    if sig = 0 then (.none, s)
    else
      let (info, s) := signalTakePendingLocked s sig
      taskSignalDispatch s sig info traced frameOk

/-! ## What each helper changes -/

section Spec

variable (s : SigState)

theorem find_getD_ne_zero {p : Nat → Bool} {sig : Nat} (h : (maskableSigs.find? p).getD 0 = sig) (h0 : sig ≠ 0) :
    sig ∈ maskableSigs ∧ p sig = true := by
  cases hf : maskableSigs.find? p with
  | none => rw [hf] at h; exact absurd h.symm h0
  | some a =>
    rw [hf] at h
    simp only [Option.getD_some] at h
    subst h
    exact ⟨List.mem_of_find?_eq_some hf, List.find?_some hf⟩

theorem signalPickDeliverableLocked_spec {sig : Nat} (h : signalPickDeliverableLocked s = sig) (h0 : sig ≠ 0) :
    s.pending sig ∧ signalSigMaskable sig = true ∧ signalIsBlocked s.blocked sig = false := by
  obtain ⟨hmem, hp⟩ := find_getD_ne_zero h h0
  have hm := (mem_maskableSigs).1 hmem
  have hlt : sig < 64 := by have := (signalSigMaskable_iff).1 hm; omega
  simp only [Bool.and_eq_true, and_sigbit_ne_zero _ hlt, Bool.not_eq_true'] at hp
  exact ⟨hp.1, hm, hp.2⟩

theorem signalPickFromSetLocked_spec {set : Sigset} {sig : Nat} (h : signalPickFromSetLocked s set = sig)
    (h0 : sig ≠ 0) : s.pending sig ∧ signalSigMaskable sig = true ∧ set.getLsbD sig = true := by
  obtain ⟨hmem, hp⟩ := find_getD_ne_zero h h0
  have hm := (mem_maskableSigs).1 hmem
  have hlt : sig < 64 := by have := (signalSigMaskable_iff).1 hm; omega
  simp only [and_sigbit_ne_zero _ hlt, BitVec.getLsbD_and, Bool.and_eq_true] at hp
  exact ⟨hp.1, hm, hp.2⟩

@[simp] theorem signalTakePendingLocked_blocked (sig : Nat) : (signalTakePendingLocked s sig).2.blocked = s.blocked := by
  unfold signalTakePendingLocked; dsimp only; split_ifs <;> rfl

@[simp] theorem signalTakePendingLocked_actions (sig : Nat) :
    (signalTakePendingLocked s sig).2.actions = s.actions := by
  unfold signalTakePendingLocked; dsimp only; split_ifs <;> rfl

theorem signalTakePendingLocked_signal (sig : Nat) :
    (signalTakePendingLocked s sig).2.signal =
      if signalSigMaskable sig then s.signal &&& ~~~(signalSigbit sig) else s.signal := by
  unfold signalTakePendingLocked; dsimp only; split_ifs <;> rfl

/-- taking `sig` clears its pending bit and no other -/
theorem pending_signalTakePendingLocked (sig i : Nat) :
    (signalTakePendingLocked s sig).2.pending i ↔ s.pending i ∧ ¬ (signalSigMaskable sig = true ∧ i = sig) := by
  unfold SigState.pending
  rw [signalTakePendingLocked_signal]
  split_ifs with hm
  · simp only [BitVec.getLsbD_and, BitVec.getLsbD_not, getLsbD_signalSigbit, hm, true_and]
    cases hx : s.signal.getLsbD i with
    | false => simp
    | true =>
      have hlt := BitVec.lt_of_getLsbD hx
      grind
  · simp [hm]

/-- taking `sig` clears at most its info bit -/
theorem infoMask_signalTakePendingLocked (sig i : Nat) (h : (signalTakePendingLocked s sig).2.infoMask.getLsbD i) :
    s.infoMask.getLsbD i = true ∧ ¬ (signalSigMaskable sig = true ∧ i = sig ∧ s.infoMask.getLsbD sig = true) := by
  have hlt := BitVec.lt_of_getLsbD h
  unfold signalTakePendingLocked at h; dsimp only at h
  split_ifs at h with hm hi
  · simp only [BitVec.getLsbD_and, BitVec.getLsbD_not, getLsbD_signalSigbit, hlt] at h
    grind
  · have hlt' : sig < 64 := by have := (signalSigMaskable_iff).1 hm; omega
    rw [and_sigbit_ne_zero _ hlt'] at hi
    grind
  · grind

@[simp] theorem taskSignalHandlerFrame_signal (sig : Nat) (action : Sigaction) :
    (taskSignalHandlerFrame s sig action).signal = s.signal := by
  unfold taskSignalHandlerFrame; dsimp only; split_ifs <;> rfl

@[simp] theorem taskSignalHandlerFrame_infoMask (sig : Nat) (action : Sigaction) :
    (taskSignalHandlerFrame s sig action).infoMask = s.infoMask := by
  unfold taskSignalHandlerFrame; dsimp only; split_ifs <;> rfl

@[simp] theorem taskSignalHandlerFrame_info (sig : Nat) (action : Sigaction) :
    (taskSignalHandlerFrame s sig action).info = s.info := by
  unfold taskSignalHandlerFrame; dsimp only; split_ifs <;> rfl

@[simp] theorem taskSignalDispatch_signal (sig : Nat) (info : Siginfo) (traced frameOk : Bool) :
    (taskSignalDispatch s sig info traced frameOk).2.signal = s.signal := by
  unfold taskSignalDispatch; dsimp only; split_ifs <;> (try split) <;> first | rfl | simp

@[simp] theorem taskSignalDispatch_infoMask (sig : Nat) (info : Siginfo) (traced frameOk : Bool) :
    (taskSignalDispatch s sig info traced frameOk).2.infoMask = s.infoMask := by
  unfold taskSignalDispatch; dsimp only; split_ifs <;> (try split) <;> first | rfl | simp

@[simp] theorem taskSignalDispatch_info (sig : Nat) (info : Siginfo) (traced frameOk : Bool) :
    (taskSignalDispatch s sig info traced frameOk).2.info = s.info := by
  unfold taskSignalDispatch; dsimp only; split_ifs <;> (try split) <;> first | rfl | simp

theorem taskSignalDispatch_sig? (sig : Nat) (info : Siginfo) (traced frameOk : Bool) :
    (taskSignalDispatch s sig info traced frameOk).1.sig? = some sig := by
  unfold taskSignalDispatch; dsimp only; split_ifs <;> (try split) <;> rfl

/-- a user task that is not dead: the one `task_commit_signal` records signals for -/
def SigState.Live : Prop := s.isKernel = false ∧ s.state ≠ .died

instance : Decidable s.Live := inferInstanceAs (Decidable (_ ∧ _))

theorem taskCommitSignal_signal (sig : Nat) (info : Option Siginfo) :
    (taskCommitSignal s sig info).signal =
      if s.Live ∧ signalSigInRange sig = true ∧ signalSigMaskable sig = true then s.signal ||| signalSigbit sig
      else s.signal := by
  unfold taskCommitSignal SigState.Live
  dsimp only
  split_ifs <;> simp_all

/-- committing sets the pending bit of a maskable signal of a live task, and no other -/
theorem pending_taskCommitSignal (sig : Nat) (info : Option Siginfo) (i : Nat) :
    (taskCommitSignal s sig info).pending i ↔ s.pending i ∨ (s.Live ∧ signalSigMaskable sig = true ∧ i = sig) := by
  unfold SigState.pending
  rw [taskCommitSignal_signal]
  by_cases hm : signalSigMaskable sig = true
  · have hr : signalSigInRange sig = true := by
      have := (signalSigMaskable_iff).1 hm; exact (signalSigInRange_iff).2 (by omega)
    have hlt : sig < 64 := by have := (signalSigMaskable_iff).1 hm; omega
    by_cases hl : s.Live
    · rw [if_pos ⟨hl, hr, hm⟩]
      simp only [BitVec.getLsbD_or, getLsbD_signalSigbit, Bool.or_eq_true, Bool.and_eq_true, decide_eq_true_eq]
      grind
    · rw [if_neg (by tauto)]; simp [hl]
  · rw [if_neg (by tauto)]; simp [hm]

end Spec

/-! ## Runs -/

inductive Op where
  | commit (sig : Nat) (info : Option Siginfo)
  | ssetmask (how : Int) (nset : Option Sigset) (sigsetsize : Nat)
  | sigprocmask (how : Int) (nsetU osetU : UserArg Sigset) (sigsetsize : Nat)
  | sigaction (sig : Nat) (action : UserArg KSigaction) (oldaction : UserArg Unit) (sigsetsize : Nat)
  | timedwait (userWaitSet : Sigset) (timedOut : Bool)
  | signalfd (userMask : Sigset)
  | sigsuspend (userMask : Sigset)
  | deliver (groupExit userContext traced frameOk : Bool)

def step (s : SigState) : Op → SigState
  | .commit sig info => taskCommitSignal s sig info
  | .ssetmask how nset size => (sysSsetmask s how nset size).2
  | .sigprocmask how nsetU osetU size => (sysSigprocmask s how nsetU osetU size).2
  | .sigaction sig action old size => (sysSigaction s sig action old size).2
  | .timedwait set timedOut => (sysRtSigtimedwaitPass s set timedOut).2
  | .signalfd mask => (taskSignalTakeSignalfd s mask).2
  | .sigsuspend mask => sysSigsuspend s mask
  | .deliver g u t f => (taskSignalPass s g u t f).2

/-- the signal a step consumes: a delivery pass, a sigtimedwait pass or a signalfd read that returns it -/
def consumed (s : SigState) : Op → Option Nat
  | .timedwait set timedOut =>
    match (sysRtSigtimedwaitPass s set timedOut).1 with
    | .signal sig _ => some sig
    | _ => none
  | .signalfd mask => (taskSignalTakeSignalfd s mask).1.map Prod.fst
  | .deliver g u t f => (taskSignalPass s g u t f).1.sig?
  | _ => none

def run (s : SigState) (ops : List Op) : SigState := ops.foldl step s

theorem run_snoc (s : SigState) (ops : List Op) (o : Op) : run s (ops ++ [o]) = step (run s ops) o := by
  simp [run, List.foldl_append]

theorem run_take_succ (s : SigState) (ops : List Op) (j : Nat) (hj : j < ops.length) :
    run s (ops.take (j + 1)) = step (run s (ops.take j)) ops[j] := by
  rw [List.take_succ_eq_append_getElem hj, run_snoc]

/-- a mask holds neither SIGKILL nor SIGSTOP -/
def KillStopFree (m : Sigset) : Prop := m.getLsbD SIGKILL = false ∧ m.getLsbD SIGSTOP = false

theorem killStopFree_userToKernel (u : Sigset) : KillStopFree (sigsetUserToKernel u) := userToKernel_kill_stop u

theorem KillStopFree.or {a b : Sigset} (ha : KillStopFree a) (hb : KillStopFree b) : KillStopFree (a ||| b) := by
  unfold KillStopFree at *; simp [ha, hb]

theorem KillStopFree.and_not {a : Sigset} (ha : KillStopFree a) (b : Sigset) : KillStopFree (a &&& ~~~b) := by
  unfold KillStopFree at *; simp [ha]

theorem killStopFree_sigbit {sig : Nat} (h1 : sig ≠ SIGKILL) (h2 : sig ≠ SIGSTOP) : KillStopFree (signalSigbit sig) := by
  unfold KillStopFree; simp [Ne.symm h1, Ne.symm h2]

/-! ## What each step can do -/

section Cases

variable (s : SigState)

theorem sysSsetmask_eq (how : Int) (nset : Option Sigset) (size : Nat) :
    (sysSsetmask s how nset size).2 = { s with blocked := (sysSsetmask s how nset size).2.blocked } := by
  unfold sysSsetmask; dsimp only; split_ifs <;> (try split) <;> rfl

theorem sysSigprocmask_cases (how : Int) (nsetU osetU : UserArg Sigset) (size : Nat) :
    (sysSigprocmask s how nsetU osetU size).2 = s ∨
      ∃ nset, (sysSigprocmask s how nsetU osetU size).2 = (sysSsetmask s how nset size).2 := by
  unfold sysSigprocmask
  split_ifs
  · exact .inl rfl
  · split
    · exact .inl rfl
    · dsimp only
      split_ifs <;> (try split) <;> exact .inr ⟨_, rfl⟩

theorem sigactionFromUser_mask {ua : KSigaction} {a : Sigaction} (h : sigactionFromUser ua = .ok a) :
    KillStopFree a.saMask := by
  unfold sigactionFromUser at h
  dsimp only at h
  split_ifs at h
  cases h
  exact killStopFree_userToKernel _

theorem sysSigaction_cases (sig : Nat) (action : UserArg KSigaction) (old : UserArg Unit) (size : Nat) :
    (sysSigaction s sig action old size).2 = s ∨
      ∃ a : Sigaction, sig ≠ SIGKILL ∧ sig ≠ SIGSTOP ∧ KillStopFree a.saMask ∧
        (sysSigaction s sig action old size).2 = { s with actions := Function.update s.actions sig a } := by
  unfold sysSigaction
  split_ifs with h1 h2
  · exact .inl rfl
  · exact .inl rfl
  · simp only [Bool.or_eq_true, Bool.not_eq_true', decide_eq_true_eq, not_or] at h1
    obtain ⟨⟨-, hk⟩, hs⟩ := h1
    cases action with
    | null => dsimp only; split <;> exact .inl rfl
    | fault => exact .inl rfl
    | val ua =>
      cases hu : sigactionFromUser ua with
      | error e => left; simp only [hu, Except.map]
      | ok a =>
        simp only [hu, Except.map]
        exact .inr ⟨a, hk, hs, sigactionFromUser_mask hu, by split <;> rfl⟩

/-- a pass that takes a signal `sig` from the pending set, or does nothing -/
def TakeStep (s s' : SigState) (c : Option Nat) : Prop :=
  (c = none ∧ s' = s) ∨
    ∃ sig, c = some sig ∧ s.pending sig ∧ signalSigMaskable sig = true ∧ s' = (signalTakePendingLocked s sig).2

theorem timedwait_takeStep (set : Sigset) (t : Bool) :
    TakeStep s (step s (.timedwait set t)) (consumed s (.timedwait set t)) := by
  simp only [step, consumed, sysRtSigtimedwaitPass]
  split_ifs with h0
  · obtain ⟨hp, hm, -⟩ := signalPickFromSetLocked_spec s rfl h0
    exact .inr ⟨_, rfl, hp, hm, rfl⟩
  all_goals exact .inl ⟨rfl, rfl⟩

theorem signalfd_takeStep (mask : Sigset) :
    TakeStep s (step s (.signalfd mask)) (consumed s (.signalfd mask)) := by
  simp only [step, consumed, taskSignalTakeSignalfd]
  split_ifs with h0
  · obtain ⟨hp, hm, -⟩ := signalPickFromSetLocked_spec s rfl h0
    exact .inr ⟨_, rfl, hp, hm, rfl⟩
  · exact .inl ⟨rfl, rfl⟩

/-- a `task_signal` pass: nothing (the task may die of a group exit), or the lowest deliverable signal is taken and
dispatched -/
theorem deliver_cases (g u t f : Bool) :
    (consumed s (.deliver g u t f) = none ∧
      (step s (.deliver g u t f) = s ∨ step s (.deliver g u t f) = { s with state := .died })) ∨
    ∃ sig, consumed s (.deliver g u t f) = some sig ∧ s.pending sig ∧ signalSigMaskable sig = true ∧
      signalIsBlocked s.blocked sig = false ∧
      step s (.deliver g u t f) =
        (taskSignalDispatch (signalTakePendingLocked s sig).2 sig (signalTakePendingLocked s sig).1 t f).2 := by
  simp only [step, consumed, taskSignalPass]
  split_ifs with hg hk h0
  · exact .inl ⟨rfl, .inr rfl⟩
  · exact .inl ⟨rfl, .inl rfl⟩
  · exact .inl ⟨rfl, .inl rfl⟩
  · obtain ⟨hp, hm, hb⟩ := signalPickDeliverableLocked_spec s rfl h0
    exact .inr ⟨_, taskSignalDispatch_sig? _ _ _ _ _, hp, hm, hb, rfl⟩

end Cases

/-! ## The invariant -/

/-- the blocked set and every handler mask hold neither SIGKILL nor SIGSTOP; SIGKILL and SIGSTOP keep their default
action; the saved-siginfo bits are pending ones; only signals 1..63 are ever pending -/
structure Inv (s : SigState) : Prop where
  infoMask_pending : ∀ i, s.infoMask.getLsbD i = true → s.pending i
  pending_maskable : ∀ i, s.pending i → signalSigMaskable i = true
  blocked_free : KillStopFree s.blocked
  mask_free : ∀ sig, KillStopFree (s.actions sig).saMask
  kill_dfl : (s.actions SIGKILL).saHandler = SIG_DFL
  stop_dfl : (s.actions SIGSTOP).saHandler = SIG_DFL

/-- the invariant reads four fields only -/
theorem Inv.congr {s s' : SigState} (h : Inv s) (h1 : s'.signal = s.signal) (h2 : s'.infoMask = s.infoMask)
    (h3 : s'.blocked = s.blocked) (h4 : s'.actions = s.actions) : Inv s' where
  infoMask_pending i hi := by
    unfold SigState.pending; rw [h1]; exact h.infoMask_pending i (h2 ▸ hi)
  pending_maskable i hi := h.pending_maskable i (by unfold SigState.pending at hi ⊢; rwa [h1] at hi)
  blocked_free := h3 ▸ h.blocked_free
  mask_free sig := h4 ▸ h.mask_free sig
  kill_dfl := h4 ▸ h.kill_dfl
  stop_dfl := h4 ▸ h.stop_dfl

theorem Inv.take {s : SigState} (h : Inv s) (sig : Nat) : Inv (signalTakePendingLocked s sig).2 where
  infoMask_pending i hi := by
    obtain ⟨hi', hne⟩ := infoMask_signalTakePendingLocked s sig i hi
    rw [pending_signalTakePendingLocked]
    refine ⟨h.infoMask_pending i hi', fun ⟨hm, hs⟩ => hne ⟨hm, hs, hs ▸ hi'⟩⟩
  pending_maskable i hi := h.pending_maskable i ((pending_signalTakePendingLocked s sig i).1 hi).1
  blocked_free := by simpa using h.blocked_free
  mask_free sig' := by simpa using h.mask_free sig'
  kill_dfl := by simpa using h.kill_dfl
  stop_dfl := by simpa using h.stop_dfl

@[simp] theorem taskCommitSignal_blocked (s : SigState) (sig : Nat) (info : Option Siginfo) :
    (taskCommitSignal s sig info).blocked = s.blocked := by
  unfold taskCommitSignal; dsimp only; split_ifs <;> rfl

@[simp] theorem taskCommitSignal_actions (s : SigState) (sig : Nat) (info : Option Siginfo) :
    (taskCommitSignal s sig info).actions = s.actions := by
  unfold taskCommitSignal; dsimp only; split_ifs <;> rfl

theorem infoMask_taskCommitSignal (s : SigState) (sig : Nat) (info : Option Siginfo) (i : Nat)
    (h : (taskCommitSignal s sig info).infoMask.getLsbD i = true) :
    s.infoMask.getLsbD i = true ∨ (signalSigMaskable sig = true ∧ i = sig) := by
  unfold taskCommitSignal at h
  dsimp only at h
  split_ifs at h with hg hm hz
  · exact .inl h
  · simp only [BitVec.getLsbD_or, getLsbD_signalSigbit, Bool.or_eq_true, Bool.and_eq_true,
      decide_eq_true_eq] at h
    grind
  · exact .inl h
  · exact .inl h

theorem Inv.commit {s : SigState} (h : Inv s) (sig : Nat) (info : Option Siginfo) :
    Inv (taskCommitSignal s sig info) where
  infoMask_pending i hi := by
    rw [pending_taskCommitSignal]
    rcases infoMask_taskCommitSignal s sig info i hi with hi | ⟨hm, rfl⟩
    · exact .inl (h.infoMask_pending i hi)
    · by_cases hl : s.Live
      · exact .inr ⟨hl, hm, rfl⟩
      · unfold taskCommitSignal at hi
        have hg : (s.isKernel || !signalSigInRange i || s.state == .died) = true := by
          unfold SigState.Live at hl
          cases hk : s.isKernel <;> simp_all
        rw [if_pos hg] at hi
        exact .inl (h.infoMask_pending i hi)
  pending_maskable i hi := by
    rcases (pending_taskCommitSignal s sig info i).1 hi with hi | ⟨-, hm, rfl⟩
    · exact h.pending_maskable i hi
    · exact hm
  blocked_free := by simpa using h.blocked_free
  mask_free sig' := by simpa using h.mask_free sig'
  kill_dfl := by simpa using h.kill_dfl
  stop_dfl := by simpa using h.stop_dfl

/-- a handler frame blocks the handler mask and, without `SA_NODEFER`, the signal itself: for a signal other than
SIGKILL and SIGSTOP neither adds one of them -/
theorem Inv.handlerFrame {s : SigState} (h : Inv s) {sig : Nat} (hk : sig ≠ SIGKILL) (hs : sig ≠ SIGSTOP) :
    Inv (taskSignalHandlerFrame s sig (s.actions sig)) := by
  have hb : KillStopFree (s.blocked ||| (s.actions sig).saMask) := h.blocked_free.or (h.mask_free sig)
  have hb' := hb.or (killStopFree_sigbit hk hs)
  have hreset : Inv { s with actions := Function.update s.actions sig { s.actions sig with saHandler := SIG_DFL } } :=
    { h with
      mask_free := fun x => by
        by_cases he : x = sig
        · subst he; simpa using h.mask_free x
        · simpa [Function.update_of_ne he] using h.mask_free x
      kill_dfl := by simpa [Function.update_of_ne (Ne.symm hk)] using h.kill_dfl
      stop_dfl := by simpa [Function.update_of_ne (Ne.symm hs)] using h.stop_dfl }
  unfold taskSignalHandlerFrame
  dsimp only
  split_ifs
  · exact { hreset with blocked_free := by simpa using hb' }
  · exact { hreset with blocked_free := by simpa using hb }
  · exact { h with blocked_free := hb' }
  · exact { h with blocked_free := hb }

theorem Inv.dispatch {s : SigState} (h : Inv s) (sig : Nat) (info : Siginfo) (traced frameOk : Bool) :
    Inv (taskSignalDispatch s sig info traced frameOk).2 := by
  have h' : Inv { s with sigsuspendActive := false } := h.congr rfl rfl rfl rfl
  unfold taskSignalDispatch
  dsimp only
  split_ifs
  all_goals first
    | exact h'
    | exact h.congr rfl rfl rfl rfl
    | (split <;> exact h.congr rfl rfl rfl rfl)
    | skip
  all_goals
    have hd : ¬(s.actions sig).saHandler = SIG_DFL := ‹_›
    exact h'.handlerFrame (fun e => hd (e ▸ h.kill_dfl)) (fun e => hd (e ▸ h.stop_dfl))

theorem Inv.ssetmask {s : SigState} (h : Inv s) (how : Int) (nset : Option Sigset) (size : Nat) :
    Inv (sysSsetmask s how nset size).2 := by
  rw [sysSsetmask_eq]
  refine { h.congr rfl rfl rfl rfl with blocked_free := ?_ }
  unfold sysSsetmask
  cases nset with
  | none => split_ifs <;> exact h.blocked_free
  | some n =>
    dsimp only
    split_ifs
    · exact h.blocked_free
    · exact h.blocked_free.or (killStopFree_userToKernel _)
    · exact h.blocked_free.and_not _
    · exact killStopFree_userToKernel _
    · exact h.blocked_free

theorem Inv.sigaction {s : SigState} (h : Inv s) (sig : Nat) (action : UserArg KSigaction) (old : UserArg Unit)
    (size : Nat) : Inv (sysSigaction s sig action old size).2 := by
  rcases sysSigaction_cases s sig action old size with he | ⟨a, hk, hs, ha, he⟩
  · rw [he]; exact h
  · rw [he]
    refine { h.congr rfl rfl rfl rfl with mask_free := ?_, kill_dfl := ?_, stop_dfl := ?_ }
    · intro x
      by_cases hx : x = sig
      · subst hx; simpa using ha
      · simpa [Function.update_of_ne hx] using h.mask_free x
    · simpa [Function.update_of_ne (Ne.symm hk)] using h.kill_dfl
    · simpa [Function.update_of_ne (Ne.symm hs)] using h.stop_dfl

theorem Inv.takeStep {s s' : SigState} {c : Option Nat} (h : Inv s) (hs : TakeStep s s' c) : Inv s' := by
  rcases hs with ⟨-, rfl⟩ | ⟨sig, -, -, -, rfl⟩
  · exact h
  · exact h.take sig

/-- **The invariant is inductive**: every step keeps it. -/
theorem step_inv {s : SigState} (h : Inv s) : ∀ o : Op, Inv (step s o)
  | .commit sig info => h.commit sig info
  | .ssetmask how nset size => h.ssetmask how nset size
  | .sigprocmask how nsetU osetU size => by
    rcases sysSigprocmask_cases s how nsetU osetU size with he | ⟨nset, he⟩
    · simp only [step, he]; exact h
    · simp only [step, he]; exact h.ssetmask how nset size
  | .sigaction sig action old size => h.sigaction sig action old size
  | .timedwait set t => h.takeStep (timedwait_takeStep s set t)
  | .signalfd mask => h.takeStep (signalfd_takeStep s mask)
  | .sigsuspend mask => { h.congr rfl rfl rfl rfl with blocked_free := killStopFree_userToKernel mask }
  | .deliver g u t f => by
    rcases deliver_cases s g u t f with ⟨-, he | he⟩ | ⟨sig, -, -, -, -, he⟩
    · rw [he]; exact h
    · rw [he]; exact h.congr rfl rfl rfl rfl
    · rw [he]; exact (h.take sig).dispatch _ _ _ _

/-- a fresh user task: nothing pending or blocked, every action zeroed -/
def SigState.init : SigState :=
  { isKernel := false, state := .running, status := 0, signal := 0#64, infoMask := 0#64, info := fun _ => .zero,
    blocked := 0#64, sigsuspendOldMask := 0#64, sigsuspendActive := false, actions := fun _ => .zero }

theorem inv_init : Inv SigState.init where
  infoMask_pending i h := by simp [SigState.init] at h
  pending_maskable i h := by simp [SigState.init, SigState.pending] at h
  blocked_free := by simp [KillStopFree, SigState.init]
  mask_free _ := by simp [KillStopFree, SigState.init, Sigaction.zero]
  kill_dfl := rfl
  stop_dfl := rfl

theorem run_inv {s : SigState} (h : Inv s) (ops : List Op) : Inv (run s ops) := by
  induction ops generalizing s with
  | nil => exact h
  | cons o ops ih => exact ih (step_inv h o)

/-! ## Pending signals and their consumption -/

theorem pending_congr {s s' : SigState} (h : s'.signal = s.signal) (i : Nat) : s'.pending i ↔ s.pending i := by
  unfold SigState.pending; rw [h]

/-- the steps that neither commit nor consume leave the pending set alone -/
theorem step_signal_of_mask (s : SigState) :
    (∀ how nset size, (step s (.ssetmask how nset size)).signal = s.signal) ∧
    (∀ how nsetU osetU size, (step s (.sigprocmask how nsetU osetU size)).signal = s.signal) ∧
    (∀ sig a old size, (step s (.sigaction sig a old size)).signal = s.signal) ∧
    (∀ mask, (step s (.sigsuspend mask)).signal = s.signal) := by
  refine ⟨fun how nset size => ?_, fun how nsetU osetU size => ?_, fun sig a old size => ?_, fun _ => rfl⟩
  · simp only [step]; rw [sysSsetmask_eq]
  · simp only [step]
    rcases sysSigprocmask_cases s how nsetU osetU size with he | ⟨nset, he⟩
    · rw [he]
    · rw [he, sysSsetmask_eq]
  · simp only [step]
    rcases sysSigaction_cases s sig a old size with he | ⟨a, -, -, -, he⟩ <;> rw [he]

/-- what a step does to one pending bit: it stays unless the step consumes it, it appears only by a commit, and a
consumed signal was pending and is pending no more -/
theorem step_pending (s : SigState) (o : Op) (i : Nat) :
    (s.pending i → consumed s o ≠ some i → (step s o).pending i) ∧
    ((step s o).pending i → s.pending i ∨ ∃ info, o = .commit i info) ∧
    (consumed s o = some i → s.pending i ∧ ¬ (step s o).pending i) := by
  obtain ⟨h1, h2, h3, h4⟩ := step_signal_of_mask s
  have hTake : ∀ s' c, TakeStep s s' c →
      (s.pending i → c ≠ some i → s'.pending i) ∧ (s'.pending i → s.pending i) ∧
        (c = some i → s.pending i ∧ ¬ s'.pending i) := by
    rintro s' c (⟨rfl, rfl⟩ | ⟨sig, rfl, hp, hm, rfl⟩)
    · exact ⟨fun h _ => h, id, fun h => absurd h (by simp)⟩
    · refine ⟨fun h hne => ?_, fun h => ((pending_signalTakePendingLocked s sig i).1 h).1, ?_⟩
      · rw [pending_signalTakePendingLocked]
        exact ⟨h, fun ⟨_, he⟩ => hne (by rw [he])⟩
      · intro he
        cases he
        exact ⟨hp, fun h => ((pending_signalTakePendingLocked s i i).1 h).2 ⟨hm, rfl⟩⟩
  cases o with
  | commit sig info =>
    refine ⟨fun h _ => (pending_taskCommitSignal s sig info i).2 (.inl h), fun h => ?_, fun h => by cases h⟩
    rcases (pending_taskCommitSignal s sig info i).1 h with h | ⟨-, -, rfl⟩
    · exact .inl h
    · exact .inr ⟨info, rfl⟩
  | ssetmask how nset size =>
    exact ⟨fun h _ => (pending_congr (h1 _ _ _) i).2 h, fun h => .inl ((pending_congr (h1 _ _ _) i).1 h),
      fun h => by cases h⟩
  | sigprocmask how nsetU osetU size =>
    exact ⟨fun h _ => (pending_congr (h2 _ _ _ _) i).2 h, fun h => .inl ((pending_congr (h2 _ _ _ _) i).1 h),
      fun h => by cases h⟩
  | sigaction sig a old size =>
    exact ⟨fun h _ => (pending_congr (h3 _ _ _ _) i).2 h, fun h => .inl ((pending_congr (h3 _ _ _ _) i).1 h),
      fun h => by cases h⟩
  | sigsuspend mask =>
    exact ⟨fun h _ => (pending_congr (h4 _) i).2 h, fun h => .inl ((pending_congr (h4 _) i).1 h), fun h => by cases h⟩
  | timedwait set t =>
    obtain ⟨a, b, c⟩ := hTake _ _ (timedwait_takeStep s set t)
    exact ⟨a, fun h => .inl (b h), c⟩
  | signalfd mask =>
    obtain ⟨a, b, c⟩ := hTake _ _ (signalfd_takeStep s mask)
    exact ⟨a, fun h => .inl (b h), c⟩
  | deliver g u t f =>
    rcases deliver_cases s g u t f with ⟨hc, he | he⟩ | ⟨sig, hc, hp, hm, -, he⟩
    · rw [hc, he]; exact ⟨fun h _ => h, .inl, fun h => by cases h⟩
    · rw [hc, he]; exact ⟨fun h _ => h, .inl, fun h => by cases h⟩
    · have hd := pending_congr (taskSignalDispatch_signal (signalTakePendingLocked s sig).2 sig
        (signalTakePendingLocked s sig).1 t f)
      rw [hc, he]
      obtain ⟨a, b, c⟩ := hTake _ (some sig) (.inr ⟨sig, rfl, hp, hm, rfl⟩)
      exact ⟨fun h hne => (hd i).2 (a h hne), fun h => .inl (b ((hd i).1 h)),
        fun h => ⟨(c h).1, fun h' => (c h).2 ((hd i).1 h')⟩⟩

/-- a delivery pass takes no blocked signal but SIGKILL and SIGSTOP -/
theorem deliver_not_blocked (s : SigState) (g u t f : Bool) {sig : Nat} (h : consumed s (.deliver g u t f) = some sig) :
    sig = SIGKILL ∨ sig = SIGSTOP ∨ s.blocked.getLsbD sig = false := by
  rcases deliver_cases s g u t f with ⟨hc, -⟩ | ⟨sig', hc, -, hm, hb, -⟩
  · rw [hc] at h; cases h
  · rw [hc] at h
    cases h
    unfold signalIsBlocked at hb
    split_ifs at hb with hks
    · exact hks.elim .inl (fun e => .inr (.inl e))
    · rw [signalSigsetHas_eq, hm, Bool.true_and] at hb
      exact .inr (.inr hb)

/-! ## Reading the mask back through `sys_sigprocmask` -/

theorem getLsbD_copyFromUserBytes (n : Nat) (u : Sigset) (i : Nat) :
    (copyFromUserBytes n u).getLsbD i = (u.getLsbD i && decide (i < 8 * n)) := by
  unfold copyFromUserBytes
  simp only [BitVec.getLsbD_and, BitVec.getLsbD_ushiftRight, BitVec.getLsbD_allOnes]
  cases hu : u.getLsbD i
  · simp
  · have := BitVec.lt_of_getLsbD hu
    grind

theorem getLsbD_copyToUserBytes {n : Nat} (hn : n ≤ 8) (w v : Sigset) (i : Nat) :
    (copyToUserBytes n w v).getLsbD i = if i < 8 * n then v.getLsbD i else w.getLsbD i := by
  unfold copyToUserBytes
  simp only [BitVec.getLsbD_or, BitVec.getLsbD_and, BitVec.getLsbD_not, BitVec.getLsbD_ushiftRight,
    BitVec.getLsbD_allOnes, getLsbD_copyFromUserBytes]
  by_cases hi : i < 64
  · split_ifs <;> grind
  · have hw : w.getLsbD i = false := BitVec.getLsbD_of_ge w i (by omega)
    have hv : v.getLsbD i = false := BitVec.getLsbD_of_ge v i (by omega)
    simp [hw, hv]

/-- `SIG_SETMASK` with a user mask, then any query of the mask: the user's `oset` word receives, in the bytes the
call copies, the installed mask less the SIGKILL, SIGSTOP and signal-64 bits, and keeps its other bytes -/
theorem sigprocmask_reports_installed (s : SigState) (u w : Sigset) (how : Int) {n : Nat}
    (hn : signalSigsetSizeValid n = true) :
    ∃ r, (sysSigprocmask (sysSigprocmask s SIG_SETMASK (.val u) .null n).2 how .null (.val w) n).1 = (0, some r) ∧
      ∀ i, r.getLsbD i = if i < 8 * n then
        (u.getLsbD i && decide (i ≠ SIGKILL - 1) && decide (i ≠ SIGSTOP - 1) && decide (i < 63)) else w.getLsbD i := by
  have hn' : n ≤ 8 := by simp [signalSigsetSizeValid] at hn; omega
  refine ⟨copyToUserBytes n w (sigsetKernelToUser (sigsetUserToKernel (copyFromUserBytes n u))), ?_, fun i => ?_⟩
  · simp [sysSigprocmask, sysSsetmask, hn, SIG_SETMASK, SIG_BLOCK, SIG_UNBLOCK]
  · rw [getLsbD_copyToUserBytes hn', user_to_kernel_roundtrip, getLsbD_copyFromUserBytes]
    split_ifs with hi
    · simp [hi]
    · rfl

/-! ## Whole runs -/

/-- a signal that is not pending stays so until a commit of it -/
theorem not_pending_until_commit (s0 : SigState) (ops : List Op) (sig i k : Nat) (hik : i ≤ k) (hk : k ≤ ops.length)
    (hi : ¬ (run s0 (ops.take i)).pending sig)
    (hnc : ∀ m (hm : m < ops.length), i ≤ m → m < k → ∀ info, ops[m] ≠ .commit sig info) :
    ¬ (run s0 (ops.take k)).pending sig := by
  induction k, hik using Nat.le_induction with
  | base => exact hi
  | succ k hik ih =>
    have hk' : k < ops.length := by omega
    rw [run_take_succ s0 ops k hk']
    intro hp
    rcases (step_pending _ _ sig).2.1 hp with hp | ⟨info, he⟩
    · exact ih (by omega) (fun m hm h1 h2 => hnc m hm h1 (by omega)) hp
    · exact hnc k hk' hik (by omega) info he

/-- Two consumptions of one signal in a run are separated by a commit of it. -/
theorem consumption_between_commits (s0 : SigState) (ops : List Op) (i j : Nat) (hij : i < j) (hi : i < ops.length)
    (hj : j < ops.length) (sig : Nat) (hci : consumed (run s0 (ops.take i)) ops[i] = some sig)
    (hcj : consumed (run s0 (ops.take j)) ops[j] = some sig) :
    ∃ k, ∃ hk : k < ops.length, i < k ∧ k < j ∧ ∃ info, ops[k] = .commit sig info := by
  by_contra hno
  push Not at hno
  have h1 : ¬ (run s0 (ops.take (i + 1))).pending sig := by
    rw [run_take_succ s0 ops i hi]
    exact ((step_pending _ _ sig).2.2 hci).2
  have h2 := not_pending_until_commit s0 ops sig (i + 1) j hij hj.le h1
    (fun m hm h1 h2 info he => hno m hm (by omega) h2 info he)
  exact h2 ((step_pending _ _ sig).2.2 hcj).1

/-- **The signal contract** of one task, over any run from a state that satisfies the invariant. -/
def SignalContract (s0 : SigState) (ops : List Op) : Prop :=
  -- info_mask ⊆ pending ⊆ {1..63}; SIGKILL and SIGSTOP are never blocked
  (∀ j ≤ ops.length, Inv (run s0 (ops.take j))) ∧
  -- a commit of 1..63 to a live user task leaves the signal pending, whatever its action
  (∀ j (hj : j < ops.length) sig info, ops[j] = .commit sig info → (run s0 (ops.take j)).Live →
    signalSigMaskable sig = true → (run s0 (ops.take (j + 1))).pending sig) ∧
  -- a pending signal leaves the pending set only through a step that consumes it
  (∀ j (hj : j < ops.length) sig, (run s0 (ops.take j)).pending sig → ¬ (run s0 (ops.take (j + 1))).pending sig →
    consumed (run s0 (ops.take j)) ops[j] = some sig) ∧
  -- a step consumes a pending signal and removes it
  (∀ j (hj : j < ops.length) sig, consumed (run s0 (ops.take j)) ops[j] = some sig →
    (run s0 (ops.take j)).pending sig ∧ ¬ (run s0 (ops.take (j + 1))).pending sig) ∧
  -- two consumptions of a signal are separated by a commit of it
  (∀ i j (hi : i < ops.length) (hj : j < ops.length) sig, i < j → consumed (run s0 (ops.take i)) ops[i] = some sig →
    consumed (run s0 (ops.take j)) ops[j] = some sig →
      ∃ k, ∃ hk : k < ops.length, i < k ∧ k < j ∧ ∃ info, ops[k] = .commit sig info) ∧
  -- delivery never takes a blocked signal other than SIGKILL and SIGSTOP
  (∀ j (hj : j < ops.length) g u t f sig, ops[j] = .deliver g u t f → consumed (run s0 (ops.take j)) ops[j] = some sig →
    sig = SIGKILL ∨ sig = SIGSTOP ∨ (run s0 (ops.take j)).blocked.getLsbD sig = false) ∧
  -- a mask installed by `sigprocmask` is reported back less the SIGKILL, SIGSTOP and signal-64 bits
  (∀ (s : SigState) (u w : Sigset) (how : Int) (n : Nat), signalSigsetSizeValid n = true →
    ∃ r, (sysSigprocmask (sysSigprocmask s SIG_SETMASK (.val u) .null n).2 how .null (.val w) n).1 = (0, some r) ∧
      ∀ i, r.getLsbD i = if i < 8 * n then
        (u.getLsbD i && decide (i ≠ SIGKILL - 1) && decide (i ≠ SIGSTOP - 1) && decide (i < 63)) else w.getLsbD i)

theorem signal_contract (s0 : SigState) (h0 : Inv s0) (ops : List Op) : SignalContract s0 ops := by
  refine ⟨fun j _ => run_inv h0 _, ?_, ?_, ?_, ?_, ?_, fun s u w how n hn => sigprocmask_reports_installed s u w how hn⟩
  · intro j hj sig info he hl hm
    rw [run_take_succ s0 ops j hj, he]
    exact (pending_taskCommitSignal _ sig info sig).2 (.inr ⟨hl, hm, rfl⟩)
  · intro j hj sig hp hnp
    rw [run_take_succ s0 ops j hj] at hnp
    by_contra hc
    exact hnp ((step_pending _ _ sig).1 hp hc)
  · intro j hj sig hc
    rw [run_take_succ s0 ops j hj]
    exact (step_pending _ _ sig).2.2 hc
  · intro i j hi hj sig hij hci hcj
    exact consumption_between_commits s0 ops i j hij hi hj sig hci hcj
  · intro j hj g u t f sig he hc
    rw [he] at hc
    exact deliver_not_blocked _ g u t f hc

theorem signal_contract_fresh_task :
    Inv SigState.init ∧ SignalContract SigState.init [.commit 10 none, .sigprocmask SIG_BLOCK (.val 0#64) .null 8,
      .deliver false true false true, .commit 10 none, .timedwait (1#64 <<< 9) false] :=
  ⟨inv_init, signal_contract _ inv_init _⟩

/-- Signal 64 is in range, has the default action TERM, and is committed to a live task, yet it never becomes
pending; and a user mask holding bit 63 (signal 64) reads back without it. -/
theorem signal64_lost :
    signalSigInRange 64 = true ∧ signalActionIgnored 64 (SigState.init.actions 64) = false ∧ SigState.init.Live ∧
      ¬ (taskCommitSignal SigState.init 64 none).pending 64 ∧
      sigsetKernelToUser (sigsetUserToKernel (1#64 <<< 63)) ≠ 1#64 <<< 63 := by
  decide

end Naos.Signal
