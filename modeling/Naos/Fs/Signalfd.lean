/-
signalfd of fs/syscall/signalfd.c: the read of a signalfd, its poll and its ioctl, and signalfd4 on an existing one.

A signalfd holds a user signal mask and a queue of records. signalfdfs_read loops: it takes the lowest pending signal
of the mask with task_signal_take_signalfd (modelled in `Signal`), and else a record from the queue; with neither it
returns -EWOULDBLOCK or sleeps in the poll wait. It then copies `min(size, sizeof(ev))` bytes of the record. The
model is one pass of that loop (`signalfdfsReadPass`); the poll wait and its wake-ups are not modelled. The ioctl
SIGNALFD_IOC_MASK memcpys the new mask from the address it is given (`argBytes` is what that read finds there).

Results:
- `signalfdfsPoll_readable`: poll reports the signalfd readable exactly when a read pass would copy a record;
- `short_read_consumes`: a one-byte read of a pending SIGUSR1 returns 1 and the signal is gone.
-/
import Mathlib
import Naos.Task.Signal

namespace Naos.Signalfd

open Naos.Signal

/-! ## The model -/

def SIGUSR1 : Nat := 10

def EBADF : Int := 9
def ENOTTY : Int := 25
def EWOULDBLOCK : Int := EAGAIN

def SIGNALFD_IOC_MASK : Nat := 0x53010008

def O_NONBLOCK : BitVec 32 := 0o4000
def O_CLOEXEC : BitVec 32 := 0o2000000
def FD_CLOEXEC : BitVec 64 := 0x1

/-- sizeof(struct signalfd_siginfo) -/
def SIZEOF_SIGNALFD_SIGINFO : Nat := 128

/-- struct signalfd_siginfo: the three header words, and the fields signal_fill_signalfd_siginfo takes from the
`_sifields` union, carried as that union -/
structure SignalfdSiginfo where
  ssiSigno : Int
  ssiErrno : Int
  ssiCode : Int
  sifields : Nat
deriving DecidableEq, Repr

def SignalfdSiginfo.zero : SignalfdSiginfo := ⟨0, 0, 0, 0⟩

/-- signal_fill_signalfd_siginfo for the siginfo task_signal_take_signalfd hands it -/
def signalFillSignalfdSiginfo (info : Siginfo) : SignalfdSiginfo := ⟨info.siSigno, info.siErrno, info.siCode, info.sifields⟩

/-- struct signalfd_ctx: the user mask and the record queue -/
structure SignalfdCtx where
  sigmask : Sigset
  queue : Nat → SignalfdSiginfo
  queueSize : Nat
  queueHead : Nat
  queueTail : Nat

/-- what one pass of the signalfdfs_read loop ends in -/
inductive ReadPass where
  /-- the call returns `len`, and the first `len` bytes of `ev` reach the user -/
  | copied (ev : SignalfdSiginfo) (len : Nat)
  | error (e : Int)
  /-- the reader sleeps in the poll wait, and the loop runs again when it wakes -/
  | wait
deriving DecidableEq, Repr

/-- one pass of signalfdfs_read for the calling task's signal state `s`; `nonblock` is O_NONBLOCK of the file -/
def signalfdfsReadPass (s : SigState) (ctx : Option SignalfdCtx) (nonblock : Bool) (size : Nat) :
    ReadPass × SigState × Option SignalfdCtx :=
  match ctx with
  | none => (.error (-EINVAL), s, none)
  | some ctx =>
    let taken := taskSignalTakeSignalfd s ctx.sigmask
    let s := taken.2
    -- `ev` is zero unless the take filled it
    let ev := (taken.1.map fun p => signalFillSignalfdSiginfo p.2).getD SignalfdSiginfo.zero
    if taken.1.isNone ∧ ctx.queueHead = ctx.queueTail then
      if nonblock then (.error (-EWOULDBLOCK), s, some ctx) else (.wait, s, some ctx)
    else
      let copyLen := min size SIZEOF_SIGNALFD_SIGINFO
      if ev.ssiSigno = 0 then
        (.copied (ctx.queue ctx.queueTail) copyLen, s,
          some { ctx with queueTail := (ctx.queueTail + 1) % ctx.queueSize })
      else (.copied ev copyLen, s, some ctx)

def EPOLLIN : Nat := 0x001
def EPOLLRDNORM : Nat := 0x040
def EPOLLNVAL : Nat := 0x020

/-- task_signal_has_pending_in_set -/
def taskSignalHasPendingInSet (s : SigState) (userMask : Sigset) : Bool :=
  signalPickFromSetLocked s (sigsetUserToKernel userMask) != 0

/-- signalfdfs_poll -/
def signalfdfsPoll (s : SigState) (ctx : Option SignalfdCtx) : Nat :=
  match ctx with
  | none => EPOLLNVAL
  | some ctx =>
    if taskSignalHasPendingInSet s ctx.sigmask || ctx.queueHead != ctx.queueTail then EPOLLIN ||| EPOLLRDNORM else 0

/-- signalfdfs_ioctl; `argBytes` is what memcpy reads at the address `arg` -/
def signalfdfsIoctl (ctx : Option SignalfdCtx) (cmd : Nat) (argBytes : Sigset) : Int × Option SignalfdCtx :=
  match ctx with
  | none => (-EBADF, none)
  | some ctx => if cmd = SIGNALFD_IOC_MASK then (0, some { ctx with sigmask := argBytes }) else (-ENOTTY, some ctx)

/-- an open file of the calling task: a signalfd with its file flags, or another file -/
inductive FileEntry where
  | signalfd (ctx : SignalfdCtx) (fFlags : BitVec 32)
  | other

/-- a descriptor: its file and its descriptor flags -/
structure Fd where
  file : FileEntry
  fdFlags : BitVec 64

/-- signalfd_apply_flags: O_NONBLOCK of the file, and FD_CLOEXEC of the descriptor -/
def signalfdApplyFlags (fFlags : BitVec 32) (fdFlags : BitVec 64) (flags : BitVec 32) : BitVec 32 × BitVec 64 :=
  let fFlags := fFlags &&& ~~~O_NONBLOCK
  let fFlags := if flags &&& O_NONBLOCK != 0 then fFlags ||| O_NONBLOCK else fFlags
  (fFlags, (fdFlags &&& ~~~FD_CLOEXEC) ||| (if flags &&& O_CLOEXEC != 0 then FD_CLOEXEC else 0))

/-- the bytes of the user mask that copy_from_user copies: the low `sizemask` of them -/
def copiedMask (m : Sigset) (sizemask : Nat) : Sigset := m &&& (BitVec.allOnes 64 >>> (64 - 8 * sizemask))

/-- sys_signalfd4 on a descriptor `ufd ≥ 0`, where the check `ufd < -1` passes; `ufd = -1`, which creates a new
signalfd, is not modelled -/
def sysSignalfd4 (fds : Nat → Option Fd) (ufd : Nat) (mask : UserArg Sigset) (sizemask : Nat) (flags : BitVec 32) :
    Int × (Nat → Option Fd) :=
  if !signalSigsetSizeValid sizemask then (-EINVAL, fds)
  else if flags &&& ~~~(O_NONBLOCK ||| O_CLOEXEC) != 0 then (-EINVAL, fds)
  else
    match mask with
    | .null | .fault => (-EFAULT, fds)
    | .val m =>
      let sigmask := copiedMask m sizemask
      match fds ufd with
      | none => (-EBADF, fds)
      | some ⟨.other, _⟩ => (-EINVAL, fds)
      | some ⟨.signalfd ctx fFlags, fdFlags⟩ =>
        let (fFlags, fdFlags) := signalfdApplyFlags fFlags fdFlags flags
        (ufd, Function.update fds ufd (some ⟨.signalfd { ctx with sigmask } fFlags, fdFlags⟩))

/-! ## The read -/

section Read

variable {s : SigState} {sig : Nat}

/-- every saved siginfo carries its own signal number, as task_commit_signal saves it -/
def InfoTagged (s : SigState) : Prop := ∀ i, s.infoMask.getLsbD i = true → (s.info i).siSigno = i

theorem taskCommitSignal_infoTagged (htag : InfoTagged s) (info : Option Siginfo) :
    InfoTagged (taskCommitSignal s sig info) := by
  intro i hi
  unfold taskCommitSignal at hi ⊢
  dsimp only at hi ⊢
  split_ifs at hi ⊢ with hk hm hnew
  · exact htag i hi
  · by_cases hs : i = sig
    · subst hs
      simp
    · rw [BitVec.getLsbD_or, getLsbD_signalSigbit] at hi
      simp only [hs, decide_false, Bool.and_false, Bool.or_false] at hi
      simpa [Function.update_of_ne hs] using htag i hi
  · exact htag i hi
  · exact htag i hi

theorem signalTakePendingLocked_infoTagged (htag : InfoTagged s) : InfoTagged (signalTakePendingLocked s sig).2 := by
  intro i hi
  have hkeep := infoMask_signalTakePendingLocked s sig i hi
  have hinfo : (signalTakePendingLocked s sig).2.info =
      if signalSigMaskable sig = true ∧ s.infoMask.getLsbD sig = true then Function.update s.info sig Siginfo.zero
      else s.info := by
    unfold signalTakePendingLocked
    by_cases hm : signalSigMaskable sig = true
    · have hlt : sig < 64 := by have := (signalSigMaskable_iff).1 hm; omega
      simp only [hm, if_true, true_and, and_sigbit_ne_zero _ hlt]
      split_ifs <;> rfl
    · simp [hm]
  rw [hinfo]
  split_ifs with hb
  · by_cases hs : i = sig
    · subst hs
      exact absurd ⟨hb.1, rfl, hb.2⟩ hkeep.2
    · simpa [Function.update_of_ne hs] using htag i hkeep.1
  · exact htag i hkeep.1

theorem InfoTagged.of_eq {s' : SigState} (htag : InfoTagged s) (h1 : s'.infoMask = s.infoMask)
    (h2 : s'.info = s.info) : InfoTagged s' :=
  fun i hi => h2 ▸ htag i (h1 ▸ hi)

theorem InfoTagged.takeStep {s' : SigState} {c : Option Nat} (htag : InfoTagged s) (h : TakeStep s s' c) :
    InfoTagged s' := by
  rcases h with ⟨-, rfl⟩ | ⟨sig, -, -, -, rfl⟩
  · exact htag
  · exact signalTakePendingLocked_infoTagged htag

/-- every step keeps the saved siginfos tagged: only a commit and a take write them -/
theorem step_infoTagged (htag : InfoTagged s) : ∀ o : Op, InfoTagged (step s o)
  | .commit sig info => taskCommitSignal_infoTagged htag info
  | .ssetmask how nset size => by simp only [step]; rw [sysSsetmask_eq]; exact htag
  | .sigprocmask how nsetU osetU size => by
    rcases sysSigprocmask_cases s how nsetU osetU size with he | ⟨nset, he⟩ <;> simp only [step, he]
    · exact htag
    · rw [sysSsetmask_eq]; exact htag
  | .sigaction sig a old size => by
    rcases sysSigaction_cases s sig a old size with he | ⟨a, -, -, -, he⟩ <;> simp only [step, he] <;> exact htag
  | .timedwait set t => htag.takeStep (timedwait_takeStep s set t)
  | .signalfd mask => htag.takeStep (signalfd_takeStep s mask)
  | .sigsuspend _ => htag
  | .deliver g u t f => by
    rcases deliver_cases s g u t f with ⟨-, he | he⟩ | ⟨sig, -, -, -, -, he⟩ <;> rw [he]
    · exact htag
    · exact htag
    · have htake : InfoTagged (signalTakePendingLocked s sig).2 := signalTakePendingLocked_infoTagged htag
      exact htake.of_eq (by simp) (by simp)

/-- along every run of the signal calls and delivery passes, every saved siginfo keeps its own signal number -/
theorem run_infoTagged (htag : InfoTagged s) (ops : List Op) : InfoTagged (run s ops) := by
  induction ops generalizing s with
  | nil => exact htag
  | cons o ops ih => exact ih (step_infoTagged htag o)

theorem run_infoTagged_init : InfoTagged SigState.init ∧ ∀ ops, InfoTagged (run SigState.init ops) :=
  have htag : InfoTagged SigState.init := fun i hi => by simp [SigState.init] at hi
  ⟨htag, run_infoTagged htag⟩

end Read

/-! ## Poll, ioctl and signalfd4 -/

/-- poll reports the signalfd readable exactly when a read pass would copy a record -/
theorem signalfdfsPoll_readable (s : SigState) (ctx : SignalfdCtx) (nonblock : Bool) (size : Nat) :
    signalfdfsPoll s (some ctx) ≠ 0 ↔ ∃ ev len, (signalfdfsReadPass s (some ctx) nonblock size).1 = .copied ev len := by
  have htake : taskSignalHasPendingInSet s ctx.sigmask = (taskSignalTakeSignalfd s ctx.sigmask).1.isSome := by
    unfold taskSignalHasPendingInSet taskSignalTakeSignalfd
    dsimp only
    split_ifs <;> simp_all
  have hpoll : signalfdfsPoll s (some ctx) ≠ 0 ↔
      ((taskSignalTakeSignalfd s ctx.sigmask).1.isSome = true ∨ ctx.queueHead ≠ ctx.queueTail) := by
    simp only [signalfdfsPoll, htake]
    split_ifs with h <;> simp_all [EPOLLIN, EPOLLRDNORM]
  rw [hpoll]
  simp only [signalfdfsReadPass]
  cases hn : (taskSignalTakeSignalfd s ctx.sigmask).1 <;> by_cases hq : ctx.queueHead = ctx.queueTail <;>
    cases nonblock <;> simp [hq] <;> split_ifs <;> simp

/-! ## A short read -/

/-- a task with only SIGUSR1 pending, no siginfo saved for it -/
def usr1Pending : SigState :=
  { isKernel := false, state := .running, status := 0, signal := signalSigbit SIGUSR1, infoMask := 0,
    info := fun _ => Siginfo.zero, blocked := 0, sigsuspendOldMask := 0, sigsuspendActive := false,
    actions := fun _ => Sigaction.zero }

/-- a signalfd for SIGUSR1 (user mask bit `SIGUSR1 - 1`) with an empty queue -/
def usr1Ctx : SignalfdCtx := ⟨signalSigbit (SIGUSR1 - 1), fun _ => SignalfdSiginfo.zero, 0, 0, 0⟩

/-- a one-byte read of the SIGUSR1 signalfd returns 1, a partial record, and SIGUSR1 is no longer pending -/
theorem short_read_consumes :
    usr1Pending.pending SIGUSR1 ∧
      (signalfdfsReadPass usr1Pending (some usr1Ctx) false 1).1 = .copied ⟨SIGUSR1, 0, SI_KERNEL, 0⟩ 1 ∧
      ¬(signalfdfsReadPass usr1Pending (some usr1Ctx) false 1).2.1.pending SIGUSR1 := by
  decide

end Naos.Signalfd
