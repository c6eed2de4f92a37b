/-
The signal structures across clone and execve: task_signal_create_empty, task_signal_clone and
task_signal_reset_after_exec of task/task.c, with the signal parts of sys_clone_internal and task_do_execve of
task/task_syscall.c.

Each task owns a task_signal_info_t: its pending set, saved siginfo, blocked mask and alternate stack, and two
pointers, to a task_sighand_t that holds the action table and to a task_cpu_account_t. Both are reference counted and
may be shared between tasks. The model keeps them on two heaps of the library `Refcount`, the pointers as addresses;
`SigSys` is the live tasks, their signal structures and the heaps. calloc is an oracle (`Callocs`): it gives an
address or fails. sys_sigaction, modelled on one task in `Signal`, runs here on the table the calling task points at
(`sysSigactionTask`).

`SigSys.Ok`: the counts of both heaps are exact for the live tasks (`Refcount.Exact`).

Results:
- `sysCloneInternal_ok`, `taskDoExecveSignal_ok`, `sysSigactionTask_ok`, `run_ok`: every legal step, and so every
  legal run, keeps the counts exact; `run_tables_live`: no live task's action table or accounting record is ever
  freed;
- `clone_clear_and_exec_reset_ignored`: an ignored SIGINT is SIG_DFL in the child of a CLONE_CLEAR_SIGHAND clone and
  after an execve.
-/
import Mathlib
import Naos.Task.Signal
import Naos.Lib.RcHeap

namespace Naos.SignalClone

open Naos.Signal Naos.Refcount

/-! ## The model -/

def SIGINT : Nat := 2

def ENOMEM : Int := 12

def CLONE_VM : BitVec 64 := 0x00000100
def CLONE_FS : BitVec 64 := 0x00000200
def CLONE_SIGHAND : BitVec 64 := 0x00000800
def CLONE_PIDFD : BitVec 64 := 0x00001000
def CLONE_VFORK : BitVec 64 := 0x00004000
def CLONE_THREAD : BitVec 64 := 0x00010000
def CLONE_NEWNS : BitVec 64 := 0x00020000
def CLONE_PARENT_SETTID : BitVec 64 := 0x00100000
def CLONE_CLEAR_SIGHAND : BitVec 64 := 0x100000000

/-- `flags & flag` is set -/
def hasFlag (flags flag : BitVec 64) : Bool := flags &&& flag != 0

def SS_DISABLE : BitVec 32 := 2
def SS_AUTODISARM : BitVec 32 := 1 <<< 31

/-- the action table `actions[MAXSIG]` of a task_sighand_t; its siglock and group-exit fields are not read here -/
abbrev Actions := Nat → Sigaction

/-- the table of a fresh task_sighand_t: calloc zeroes every slot -/
def zeroActions : Actions := fun _ => Sigaction.zero

/-- task_cpu_account_t without its reference count, which the heap keeps -/
structure CpuAccount where
  runtimeNs : Nat

/-- stack_t -/
structure StackT where
  ssSp : Nat
  ssFlags : BitVec 32
  ssSize : Nat

/-- task_signal_info_t; `sighand` and `cpuAccount` are addresses on the heaps -/
structure SignalInfo where
  signal : Sigset
  infoMask : Sigset
  info : Nat → Siginfo
  blocked : Sigset
  sigsuspendOldMask : Sigset
  sigsuspendActive : Bool
  altstack : StackT
  sighand : Nat
  cpuAccount : Nat

/-- the live tasks, the task_signal_info_t each owns, and the heaps of task_sighand_t and task_cpu_account_t -/
structure SigSys where
  tasks : Finset Nat
  signalOf : Nat → SignalInfo
  sighands : RcHeap Actions
  accounts : RcHeap CpuAccount

/-- what the callocs of task_signal_create_empty give: whether the task_signal_info_t is allocated, and the addresses
of the new task_sighand_t and task_cpu_account_t, `none` for NULL -/
structure Callocs where
  signal : Bool
  sighand : Option Nat
  cpuAccount : Option Nat

def taskSighandAlloc (h : RcHeap Actions) (addr : Option Nat) : Option (Nat × RcHeap Actions) :=
  tryAlloc h addr zeroActions

def taskSighandGet (h : RcHeap Actions) (a : Nat) : RcHeap Actions := get h a

def taskSighandPut (h : RcHeap Actions) (a : Nat) : RcHeap Actions := put h a

def taskCpuAccountAlloc (h : RcHeap CpuAccount) (addr : Option Nat) : Option (Nat × RcHeap CpuAccount) :=
  tryAlloc h addr ⟨0⟩

def taskCpuAccountGet (h : RcHeap CpuAccount) (a : Nat) : RcHeap CpuAccount := get h a

def taskCpuAccountPut (h : RcHeap CpuAccount) (a : Nat) : RcHeap CpuAccount := put h a

/-- the zeroed task_signal_info_t with its alternate stack disabled and its two new objects -/
def emptySignal (sighand cpuAccount : Nat) : SignalInfo where
  signal := 0
  infoMask := 0
  info _ := Siginfo.zero
  blocked := 0
  sigsuspendOldMask := 0
  sigsuspendActive := false
  altstack := ⟨0, SS_DISABLE, 0⟩
  sighand := sighand
  cpuAccount := cpuAccount

/-- task_signal_create_empty; each failure frees what was allocated before it -/
def taskSignalCreateEmpty (sys : SigSys) (c : Callocs) : Option SignalInfo × SigSys :=
  if !c.signal then (none, sys)
  else
    match taskSighandAlloc sys.sighands c.sighand with
    | none => (none, sys)
    | some (sh, sighands) =>
      match taskCpuAccountAlloc sys.accounts c.cpuAccount with
      | none => (none, { sys with sighands := taskSighandPut sighands sh })
      | some (ac, accounts) => (some (emptySignal sh ac), { sys with sighands, accounts })

/-- the child's action table: the parent's with CLONE_SIGHAND, else a copy of it unless CLONE_CLEAR_SIGHAND -/
def cloneSighand (h : RcHeap Actions) (ps s : SignalInfo) (flags : BitVec 64) : SignalInfo × RcHeap Actions :=
  if hasFlag flags CLONE_SIGHAND then
    let h := taskSighandPut h s.sighand
    let s := { s with sighand := ps.sighand }
    (s, taskSighandGet h s.sighand)
  else if !hasFlag flags CLONE_CLEAR_SIGHAND then
    -- the memcpy of the parent's actions
    (s, copy h s.sighand ps.sighand)
  else (s, h)

/-- the child's accounting record: the parent's with CLONE_THREAD -/
def cloneCpuAccount (h : RcHeap CpuAccount) (ps s : SignalInfo) (flags : BitVec 64) : SignalInfo × RcHeap CpuAccount :=
  if hasFlag flags CLONE_THREAD then
    let h := taskCpuAccountPut h s.cpuAccount
    let s := { s with cpuAccount := ps.cpuAccount }
    (s, taskCpuAccountGet h s.cpuAccount)
  else (s, h)

/-- the child's alternate stack: none when it shares the memory and runs at once, else the parent's, disarmed -/
def cloneAltstack (ps : SignalInfo) (flags : BitVec 64) : StackT :=
  if hasFlag flags CLONE_VM && !hasFlag flags CLONE_VFORK then ⟨0, SS_DISABLE, 0⟩
  else { ps.altstack with ssFlags := ps.altstack.ssFlags &&& SS_AUTODISARM }

/-- task_signal_clone: the body under the parent's siglock is `cloneSighand`, `cloneCpuAccount`, the blocked mask and
`cloneAltstack` -/
def taskSignalClone (sys : SigSys) (parent : Nat) (flags : BitVec 64) (c : Callocs) : Option SignalInfo × SigSys :=
  if parent ∉ sys.tasks then (none, sys)
  else
    let ps := sys.signalOf parent
    if (sys.sighands ps.sighand).isNone then (none, sys)
    else
      match taskSignalCreateEmpty sys c with
      | (none, sys) => (none, sys)
      | (some s, sys) =>
        let (s, sighands) := cloneSighand sys.sighands ps s flags
        let (s, accounts) := cloneCpuAccount sys.accounts ps s flags
        (some { s with blocked := ps.blocked, altstack := cloneAltstack ps flags }, { sys with sighands, accounts })

/-- the SIGCHLD slot of the new table after execve: SIG_IGN when the old one ignored SIGCHLD -/
def execSigchld (h : RcHeap Actions) (ts s : SignalInfo) : RcHeap Actions :=
  match objAt h ts.sighand with
  | some act =>
    if (act SIGCHLD).saHandler = SIG_IGN then
      modify h s.sighand fun a => Function.update a SIGCHLD { a SIGCHLD with saHandler := SIG_IGN }
    else h
  | none => h

/-- task_signal_reset_after_exec -/
def taskSignalResetAfterExec (sys : SigSys) (task : Nat) (c : Callocs) : Option SignalInfo × SigSys :=
  if task ∉ sys.tasks then (none, sys)
  else
    let ts := sys.signalOf task
    if (sys.sighands ts.sighand).isNone then (none, sys)
    else
      match taskSignalCreateEmpty sys c with
      | (none, sys) => (none, sys)
      | (some s, sys) =>
        let sys := { sys with sighands := execSigchld sys.sighands ts s }
        let s := { s with blocked := ts.blocked, signal := ts.signal, infoMask := ts.infoMask, info := ts.info }
        let sys := { sys with accounts := taskCpuAccountPut sys.accounts s.cpuAccount }
        let s := { s with cpuAccount := ts.cpuAccount }
        (some s, { sys with accounts := taskCpuAccountGet sys.accounts s.cpuAccount })

/-- task_signal_free, on the heaps: the structure itself is the task's -/
def taskSignalFree (sys : SigSys) (s : SignalInfo) : SigSys :=
  { sys with sighands := taskSighandPut sys.sighands s.sighand, accounts := taskCpuAccountPut sys.accounts s.cpuAccount }

/-- the signal part of sys_clone_internal: the flag checks, task_signal_clone, and the reset of the child's pending
signals; `child` is the task get_free_task gives -/
def sysCloneInternal (sys : SigSys) (flags : BitVec 64) (parent child : Nat) (c : Callocs) : Except Int Unit × SigSys :=
  if hasFlag flags CLONE_THREAD && (!hasFlag flags CLONE_SIGHAND || !hasFlag flags CLONE_VM) then (.error (-EINVAL), sys)
  else if hasFlag flags CLONE_SIGHAND && !hasFlag flags CLONE_VM then (.error (-EINVAL), sys)
  else if hasFlag flags CLONE_NEWNS && hasFlag flags CLONE_FS then (.error (-EINVAL), sys)
  else if hasFlag flags CLONE_CLEAR_SIGHAND && hasFlag flags CLONE_SIGHAND then (.error (-EINVAL), sys)
  else if hasFlag flags CLONE_PIDFD && hasFlag flags CLONE_PARENT_SETTID then (.error (-EINVAL), sys)
  else
    match taskSignalClone sys parent flags c with
    | (none, sys) => (.error (-ENOMEM), sys)
    | (some s, sys) =>
      let s := { s with signal := 0, infoMask := 0, info := fun _ => Siginfo.zero }
      (.ok (), { sys with tasks := insert child sys.tasks, signalOf := Function.update sys.signalOf child s })

/-- the signal part of task_do_execve: task_signal_reset_after_exec, then the old structure freed and the new one
installed -/
def taskDoExecveSignal (sys : SigSys) (task : Nat) (c : Callocs) : Except Int Unit × SigSys :=
  match taskSignalResetAfterExec sys task c with
  | (none, sys) => (.error (-ENOMEM), sys)
  | (some s, sys) =>
    let sys := taskSignalFree sys (sys.signalOf task)
    (.ok (), { sys with signalOf := Function.update sys.signalOf task s })

/-- the state `sys_sigaction` sees in the calling task: its signal structure and the table it points at; the caller
is a running user task, and its exit status is not read -/
def SigSys.view (sys : SigSys) (t : Nat) : SigState :=
  let si := sys.signalOf t
  { isKernel := false, state := .running, status := 0, signal := si.signal, infoMask := si.infoMask, info := si.info,
    blocked := si.blocked, sigsuspendOldMask := si.sigsuspendOldMask, sigsuspendActive := si.sigsuspendActive,
    actions := (objAt sys.sighands si.sighand).getD zeroActions }

/-- sys_sigaction by task `t`, which writes the table `t` points at -/
def sysSigactionTask (sys : SigSys) (t sig : Nat) (action : UserArg KSigaction) (oldaction : UserArg Unit)
    (sigsetsize : Nat) : (Int × Option KSigaction) × SigSys :=
  let res := sysSigaction (sys.view t) sig action oldaction sigsetsize
  (res.1, { sys with sighands := modify sys.sighands (sys.signalOf t).sighand fun _ => res.2.actions })

/-- the actions task `t` sees -/
def SigSys.actionsOf (sys : SigSys) (t : Nat) : Option Actions := objAt sys.sighands (sys.signalOf t).sighand

/-! ## The invariant and what calloc guarantees -/

/-- the counts of both heaps are exact for the live tasks -/
structure SigSys.Ok (sys : SigSys) : Prop where
  sighands : Exact sys.sighands sys.tasks fun t => (sys.signalOf t).sighand
  accounts : Exact sys.accounts sys.tasks fun t => (sys.signalOf t).cpuAccount

/-- calloc gives addresses that are not in use -/
def Fresh (sys : SigSys) (c : Callocs) : Prop :=
  (∀ a, c.sighand = some a → sys.sighands a = none) ∧ ∀ a, c.cpuAccount = some a → sys.accounts a = none

/-- the pointers of the tasks after one task's signal structure is replaced -/
theorem ptr_update (f : Nat → SignalInfo) (n : Nat) (s : SignalInfo) (g : SignalInfo → Nat) :
    (fun t => g (Function.update f n s t)) = Function.update (fun t => g (f t)) n (g s) := by
  funext t
  by_cases ht : t = n
  · subst ht
    simp
  · simp [ht]

/-! ## task_signal_create_empty and task_signal_clone -/

section Clone

variable {sys : SigSys} {c : Callocs} {a b parent : Nat} {flags : BitVec 64}

theorem taskSignalCreateEmpty_some :
    taskSignalCreateEmpty sys ⟨true, some a, some b⟩ =
      (some (emptySignal a b), { sys with sighands := alloc sys.sighands a zeroActions, accounts := alloc sys.accounts b ⟨0⟩ }) :=
  rfl

/-- a failed calloc: what was allocated before it is freed, and nothing has changed -/
theorem taskSignalCreateEmpty_fail (hf : Fresh sys c) (hc : ∀ a b, c ≠ ⟨true, some a, some b⟩) :
    taskSignalCreateEmpty sys c = (none, sys) := by
  rcases c with ⟨_ | _, _ | a, _ | b⟩
  · rfl
  · rfl
  · rfl
  · rfl
  · rfl
  · rfl
  · simp [taskSignalCreateEmpty, taskSighandAlloc, taskCpuAccountAlloc, tryAlloc, taskSighandPut, put_alloc (hf.1 a rfl)]
  · exact absurd rfl (hc a b)

/-- the child's table on the heap where its own new table was just placed at `a` -/
theorem cloneSighand_alloc {h : RcHeap Actions} {ps s : SignalInfo} {o : Rc Actions} (hsrc : h ps.sighand = some o)
    (ha : h a = none) (hs : s.sighand = a) :
    cloneSighand (alloc h a zeroActions) ps s flags =
      (if hasFlag flags CLONE_SIGHAND then { s with sighand := ps.sighand } else s,
        if hasFlag flags CLONE_SIGHAND then get h ps.sighand
        else alloc h a (if hasFlag flags CLONE_CLEAR_SIGHAND then zeroActions else o.obj)) := by
  have hne : ps.sighand ≠ a := fun he => by simp [he, ha] at hsrc
  unfold cloneSighand
  by_cases hS : hasFlag flags CLONE_SIGHAND
  · simp [hS, taskSighandPut, taskSighandGet, hs, put_alloc ha]
  · by_cases hC : hasFlag flags CLONE_CLEAR_SIGHAND
    · simp [hS, hC]
    · simp [hS, hC, hs, copy_alloc hsrc hne]

/-- the child's accounting record on the heap where its own new one was just placed at `b` -/
theorem cloneCpuAccount_alloc {h : RcHeap CpuAccount} {ps s : SignalInfo} (hb : h b = none) (hs : s.cpuAccount = b) :
    cloneCpuAccount (alloc h b ⟨0⟩) ps s flags =
      (if hasFlag flags CLONE_THREAD then { s with cpuAccount := ps.cpuAccount } else s,
        if hasFlag flags CLONE_THREAD then get h ps.cpuAccount else alloc h b ⟨0⟩) := by
  unfold cloneCpuAccount
  by_cases hT : hasFlag flags CLONE_THREAD
  · simp [hT, taskCpuAccountPut, taskCpuAccountGet, hs, put_alloc hb]
  · simp [hT]

/-- the child's signal structure after a successful clone, whose own new table and record were placed at `a` and
`b` -/
def clonedChild (ps : SignalInfo) (flags : BitVec 64) (a b : Nat) : SignalInfo :=
  { emptySignal (if hasFlag flags CLONE_SIGHAND then ps.sighand else a)
      (if hasFlag flags CLONE_THREAD then ps.cpuAccount else b) with
    blocked := ps.blocked, altstack := cloneAltstack ps flags }

@[simp] theorem clonedChild_sighand {ps : SignalInfo} :
    (clonedChild ps flags a b).sighand = if hasFlag flags CLONE_SIGHAND then ps.sighand else a := rfl

@[simp] theorem clonedChild_cpuAccount {ps : SignalInfo} :
    (clonedChild ps flags a b).cpuAccount = if hasFlag flags CLONE_THREAD then ps.cpuAccount else b := rfl

@[simp] theorem clonedChild_blocked {ps : SignalInfo} : (clonedChild ps flags a b).blocked = ps.blocked := rfl

@[simp] theorem clonedChild_signal {ps : SignalInfo} : (clonedChild ps flags a b).signal = 0 := rfl

@[simp] theorem clonedChild_infoMask {ps : SignalInfo} : (clonedChild ps flags a b).infoMask = 0 := rfl

/-- the state after a successful clone of `parent`, whose table holds `parentActions` -/
def clonedSys (sys : SigSys) (flags : BitVec 64) (parent child a b : Nat) (parentActions : Actions) : SigSys :=
  let ps := sys.signalOf parent
  { tasks := insert child sys.tasks
    signalOf := Function.update sys.signalOf child (clonedChild ps flags a b)
    sighands :=
      if hasFlag flags CLONE_SIGHAND then get sys.sighands ps.sighand
      else alloc sys.sighands a (if hasFlag flags CLONE_CLEAR_SIGHAND then zeroActions else parentActions)
    accounts := if hasFlag flags CLONE_THREAD then get sys.accounts ps.cpuAccount else alloc sys.accounts b ⟨0⟩ }

/-- task_signal_clone when the three callocs succeed -/
theorem taskSignalClone_some {o : Rc Actions} (hp : parent ∈ sys.tasks)
    (hsrc : sys.sighands (sys.signalOf parent).sighand = some o) (ha : sys.sighands a = none)
    (hb : sys.accounts b = none) :
    taskSignalClone sys parent flags ⟨true, some a, some b⟩ =
      (some (clonedChild (sys.signalOf parent) flags a b),
        { sys with
          sighands := (clonedSys sys flags parent 0 a b o.obj).sighands
          accounts := (clonedSys sys flags parent 0 a b o.obj).accounts }) := by
  have hs : (if hasFlag flags CLONE_SIGHAND then { emptySignal a b with sighand := (sys.signalOf parent).sighand }
      else emptySignal a b).cpuAccount = b := by
    split_ifs <;> rfl
  simp only [taskSignalClone, hp, not_true_eq_false, if_false, hsrc, Option.isNone_some, Bool.false_eq_true,
    taskSignalCreateEmpty_some]
  rw [cloneSighand_alloc hsrc ha rfl, cloneCpuAccount_alloc hb hs]
  by_cases hS : hasFlag flags CLONE_SIGHAND <;> by_cases hT : hasFlag flags CLONE_THREAD <;>
    simp only [hS, hT, if_true, if_false, Bool.false_eq_true, clonedSys, clonedChild] <;> rfl

/-- what sys_clone_internal can do, for callocs that give unused addresses: fail and change nothing, or clone -/
theorem sysCloneInternal_cases (flags : BitVec 64) (parent child : Nat) (hf : Fresh sys c) :
    ((sysCloneInternal sys flags parent child c).2 = sys ∧ (sysCloneInternal sys flags parent child c).1 ≠ .ok ()) ∨
      ∃ o a b, parent ∈ sys.tasks ∧ sys.sighands (sys.signalOf parent).sighand = some o ∧ c = ⟨true, some a, some b⟩ ∧
        sysCloneInternal sys flags parent child c = (.ok (), clonedSys sys flags parent child a b o.obj) := by
  have hfail : ∀ e : Int, ((Except.error e : Except Int Unit), sys).2 = sys ∧ (Except.error e : Except Int Unit) ≠ .ok () :=
    fun e => ⟨rfl, nofun⟩
  unfold sysCloneInternal
  split_ifs
  · exact .inl (hfail _)
  · exact .inl (hfail _)
  · exact .inl (hfail _)
  · exact .inl (hfail _)
  · exact .inl (hfail _)
  by_cases hp : parent ∈ sys.tasks
  swap
  · have hnone : taskSignalClone sys parent flags c = (none, sys) := by simp [taskSignalClone, hp]
    rw [hnone]
    exact .inl (hfail _)
  by_cases hsh : sys.sighands (sys.signalOf parent).sighand = none
  · have hnone : taskSignalClone sys parent flags c = (none, sys) := by simp [taskSignalClone, hp, hsh]
    rw [hnone]
    exact .inl (hfail _)
  obtain ⟨o, hsrc⟩ := Option.ne_none_iff_exists'.1 hsh
  by_cases hc : ∃ a b, c = ⟨true, some a, some b⟩
  · obtain ⟨a, b, rfl⟩ := hc
    refine .inr ⟨o, a, b, hp, hsrc, rfl, ?_⟩
    rw [taskSignalClone_some hp hsrc (hf.1 a rfl) (hf.2 b rfl)]
    rfl
  · simp only [not_exists] at hc
    have hnone : taskSignalClone sys parent flags c = (none, sys) := by
      simp [taskSignalClone, hp, hsrc, taskSignalCreateEmpty_fail hf hc]
    rw [hnone]
    exact .inl (hfail _)

section Cloned

variable {child : Nat} {o : Rc Actions} {x : Actions}

variable (hok : sys.Ok) (hp : parent ∈ sys.tasks) (hsrc : sys.sighands (sys.signalOf parent).sighand = some o)
  (ha : sys.sighands a = none) (hb : sys.accounts b = none) (hchild : child ∉ sys.tasks)
include hok hp hsrc ha hb hchild

/-- a successful clone keeps the counts exact: the child is one more owner of the parent's objects, or the only
owner of its new ones -/
theorem clonedSys_ok : (clonedSys sys flags parent child a b x).Ok where
  sighands := by
    simp only [clonedSys]
    rw [ptr_update]
    by_cases hS : hasFlag flags CLONE_SIGHAND
    · simp only [clonedChild_sighand, hS, if_true]
      exact hok.sighands.get_insert (by simp [hsrc]) hchild
    · simp only [clonedChild_sighand, hS, if_false, Bool.false_eq_true]
      exact hok.sighands.alloc_insert ha hchild
  accounts := by
    simp only [clonedSys]
    rw [ptr_update]
    by_cases hT : hasFlag flags CLONE_THREAD
    · simp only [clonedChild_cpuAccount, hT, if_true]
      exact hok.accounts.get_insert (hok.accounts.objAt_isSome hp) hchild
    · simp only [clonedChild_cpuAccount, hT, if_false, Bool.false_eq_true]
      exact hok.accounts.alloc_insert hb hchild

end Cloned

theorem sysCloneInternal_ok {child : Nat} (hok : sys.Ok) (hf : Fresh sys c) (hchild : child ∉ sys.tasks) :
    (sysCloneInternal sys flags parent child c).2.Ok := by
  rcases sysCloneInternal_cases flags parent child hf with ⟨heq, -⟩ | ⟨o, a, b, hp, hsrc, rfl, heq⟩
  · rw [heq]
    exact hok
  · rw [heq]
    exact clonedSys_ok hok hp hsrc (hf.1 a rfl) (hf.2 b rfl) hchild

end Clone

/-! ## task_signal_reset_after_exec and execve -/

/-- the action table execve leaves: every slot zero, but SIGCHLD stays ignored -/
def execActions (old : Actions) : Actions :=
  if (old SIGCHLD).saHandler = SIG_IGN then
    Function.update zeroActions SIGCHLD { zeroActions SIGCHLD with saHandler := SIG_IGN }
  else zeroActions

/-- the task's signal structure after execve, whose new table was placed at `a` -/
def execedSignal (ts : SignalInfo) (a : Nat) : SignalInfo :=
  { emptySignal a ts.cpuAccount with
    blocked := ts.blocked, signal := ts.signal, infoMask := ts.infoMask, info := ts.info }

@[simp] theorem execedSignal_sighand {ts : SignalInfo} {a : Nat} : (execedSignal ts a).sighand = a := rfl

@[simp] theorem execedSignal_cpuAccount {ts : SignalInfo} {a : Nat} :
    (execedSignal ts a).cpuAccount = ts.cpuAccount := rfl

/-- the state after a successful execve of `task`, whose old table held `old` -/
def execedSys (sys : SigSys) (task a : Nat) (old : Actions) : SigSys :=
  let ts := sys.signalOf task
  { sys with
    signalOf := Function.update sys.signalOf task (execedSignal ts a)
    sighands := put (alloc sys.sighands a (execActions old)) ts.sighand }

section Exec

variable {sys : SigSys} {c : Callocs} {task a b : Nat} {o : Rc Actions}

/-- the SIGCHLD slot set on the new table just placed at `a` -/
theorem execSigchld_alloc {h : RcHeap Actions} {ts s : SignalInfo} (hsrc : h ts.sighand = some o) (ha : h a = none)
    (hs : s.sighand = a) : execSigchld (alloc h a zeroActions) ts s = alloc h a (execActions o.obj) := by
  have hne : ts.sighand ≠ a := fun he => by simp [he, ha] at hsrc
  have hold : objAt (alloc h a zeroActions) ts.sighand = some o.obj := by
    rw [objAt_alloc, if_neg hne]
    simp [objAt, hsrc]
  unfold execSigchld execActions
  rw [hold]
  by_cases hign : (o.obj SIGCHLD).saHandler = SIG_IGN
  · simp only [hign, if_true, hs, modify_alloc]
  · simp only [hign, if_false]

/-- task_signal_reset_after_exec when the three callocs succeed -/
theorem taskSignalResetAfterExec_some (ht : task ∈ sys.tasks) (hsrc : sys.sighands (sys.signalOf task).sighand = some o)
    (ha : sys.sighands a = none) (hb : sys.accounts b = none) :
    taskSignalResetAfterExec sys task ⟨true, some a, some b⟩ =
      (some (execedSignal (sys.signalOf task) a),
        { sys with
          sighands := alloc sys.sighands a (execActions o.obj)
          accounts := get sys.accounts (sys.signalOf task).cpuAccount }) := by
  simp only [taskSignalResetAfterExec, ht, not_true_eq_false, if_false, hsrc, Option.isNone_some, Bool.false_eq_true,
    taskSignalCreateEmpty_some]
  rw [execSigchld_alloc hsrc ha rfl]
  simp only [taskCpuAccountPut, taskCpuAccountGet, emptySignal, put_alloc hb]
  rfl

/-- what the signal part of execve can do, for callocs that give unused addresses: fail and change nothing, or
replace the task's signal structure -/
theorem taskDoExecveSignal_cases (task : Nat) (hok : sys.Ok) (hf : Fresh sys c) :
    ((taskDoExecveSignal sys task c).2 = sys ∧ (taskDoExecveSignal sys task c).1 ≠ .ok ()) ∨
      ∃ o a b, task ∈ sys.tasks ∧ sys.sighands (sys.signalOf task).sighand = some o ∧ c = ⟨true, some a, some b⟩ ∧
        taskDoExecveSignal sys task c = (.ok (), execedSys sys task a o.obj) := by
  have hfail : ∀ e : Int, ((Except.error e : Except Int Unit), sys).2 = sys ∧ (Except.error e : Except Int Unit) ≠ .ok () :=
    fun e => ⟨rfl, nofun⟩
  unfold taskDoExecveSignal
  by_cases ht : task ∈ sys.tasks
  swap
  · have hnone : taskSignalResetAfterExec sys task c = (none, sys) := by simp [taskSignalResetAfterExec, ht]
    rw [hnone]
    exact .inl (hfail _)
  by_cases hsh : sys.sighands (sys.signalOf task).sighand = none
  · have hnone : taskSignalResetAfterExec sys task c = (none, sys) := by simp [taskSignalResetAfterExec, ht, hsh]
    rw [hnone]
    exact .inl (hfail _)
  obtain ⟨o, hsrc⟩ := Option.ne_none_iff_exists'.1 hsh
  by_cases hc : ∃ a b, c = ⟨true, some a, some b⟩
  · obtain ⟨a, b, rfl⟩ := hc
    refine .inr ⟨o, a, b, ht, hsrc, rfl, ?_⟩
    rw [taskSignalResetAfterExec_some ht hsrc (hf.1 a rfl) (hf.2 b rfl)]
    have hc0 : countAt sys.accounts (sys.signalOf task).cpuAccount ≠ 0 := (hok.accounts.countAt_pos ht).ne'
    simp only [taskSignalFree, taskSighandPut, taskCpuAccountPut, put_get hc0]
    rfl
  · simp only [not_exists] at hc
    have hnone : taskSignalResetAfterExec sys task c = (none, sys) := by
      simp [taskSignalResetAfterExec, ht, hsrc, taskSignalCreateEmpty_fail hf hc]
    rw [hnone]
    exact .inl (hfail _)

section Execed

variable {x : Actions} (hok : sys.Ok) (ht : task ∈ sys.tasks) (ha : sys.sighands a = none)
include hok ht ha

/-- a successful execve keeps the counts exact: the task moves to its new table, and keeps its record -/
theorem execedSys_ok : (execedSys sys task a x).Ok where
  sighands := by
    simp only [execedSys]
    rw [ptr_update]
    simp only [execedSignal_sighand]
    exact hok.sighands.repoint ha ht
  accounts := by
    simp only [execedSys]
    rw [ptr_update]
    simp only [execedSignal_cpuAccount, Function.update_eq_self]
    exact hok.accounts

end Execed

theorem taskDoExecveSignal_ok (hok : sys.Ok) (hf : Fresh sys c) : (taskDoExecveSignal sys task c).2.Ok := by
  rcases taskDoExecveSignal_cases task hok hf with ⟨heq, -⟩ | ⟨o, a, b, ht, hsrc, rfl, heq⟩
  · rw [heq]
    exact hok
  · rw [heq]
    exact execedSys_ok hok ht (hf.1 a rfl)

end Exec

/-! ## sigaction on a shared table -/

section Sigaction

variable {sys : SigSys} {t sig sigsetsize : Nat} {action : UserArg KSigaction} {oldaction : UserArg Unit}

theorem sysSigactionTask_ok (hok : sys.Ok) : (sysSigactionTask sys t sig action oldaction sigsetsize).2.Ok := by
  refine ⟨?_, hok.accounts⟩
  show Exact (modify sys.sighands (sys.signalOf t).sighand
    fun _ => (sysSigaction (sys.view t) sig action oldaction sigsetsize).2.actions) sys.tasks
    fun u => (sys.signalOf u).sighand
  exact hok.sighands.modify_at

end Sigaction

/-! ## Runs -/

/-- the operations on the signal structures, each one call -/
inductive SigOp where
  | clone (flags : BitVec 64) (parent child : Nat) (c : Callocs)
  | execve (task : Nat) (c : Callocs)
  | sigaction (task sig : Nat) (action : UserArg KSigaction) (oldaction : UserArg Unit) (sigsetsize : Nat)

def step (sys : SigSys) : SigOp → SigSys
  | .clone flags parent child c => (sysCloneInternal sys flags parent child c).2
  | .execve task c => (taskDoExecveSignal sys task c).2
  | .sigaction task sig action oldaction sigsetsize => (sysSigactionTask sys task sig action oldaction sigsetsize).2

def run (sys : SigSys) (ops : List SigOp) : SigSys := ops.foldl step sys

/-- what the rest of the kernel guarantees a step: calloc gives addresses not in use, and get_free_task a task that
is not live -/
def Legal (sys : SigSys) : SigOp → Prop
  | .clone _ _ child c => child ∉ sys.tasks ∧ Fresh sys c
  | .execve _ c => Fresh sys c
  | .sigaction .. => True

def LegalRun : SigSys → List SigOp → Prop
  | _, [] => True
  | sys, op :: ops => Legal sys op ∧ LegalRun (step sys op) ops

theorem step_ok {sys : SigSys} {op : SigOp} (hok : sys.Ok) (hl : Legal sys op) : (step sys op).Ok := by
  cases op with
  | clone flags parent child c => exact sysCloneInternal_ok hok hl.2 hl.1
  | execve task c => exact taskDoExecveSignal_ok hok hl
  | sigaction task sig action oldaction sigsetsize => exact sysSigactionTask_ok hok

/-- the counts stay exact along every legal run -/
theorem run_ok : ∀ (ops : List SigOp) (sys : SigSys), sys.Ok → LegalRun sys ops → (run sys ops).Ok
  | [], _, hok, _ => hok
  | op :: ops, sys, hok, ⟨hl, hrun⟩ => run_ok ops (step sys op) (step_ok hok hl) hrun

/-- along every legal run, no live task's action table or accounting record is freed -/
theorem run_tables_live {sys : SigSys} {ops : List SigOp} (hok : sys.Ok) (hrun : LegalRun sys ops) :
    ∀ t ∈ (run sys ops).tasks, ((run sys ops).sighands ((run sys ops).signalOf t).sighand).isSome ∧
      ((run sys ops).accounts ((run sys ops).signalOf t).cpuAccount).isSome := by
  intro t ht
  have hok' := run_ok ops sys hok hrun
  exact ⟨hok'.sighands.objAt_isSome ht, hok'.accounts.objAt_isSome ht⟩

/-! ## Ignored signals -/

/-- one task, 1, whose table ignores SIGINT; its table and its record are at address 1 -/
def ignoringSys : SigSys where
  tasks := {1}
  signalOf _ := emptySignal 1 1
  sighands := alloc (fun _ => none) 1 (Function.update zeroActions SIGINT { Sigaction.zero with saHandler := SIG_IGN })
  accounts := alloc (fun _ => none) 1 ⟨0⟩

theorem ignoringSys_ok : ignoringSys.Ok :=
  have hone : ∀ {α : Type} (x : α), Exact (alloc (fun _ => none) 1 x) ({1} : Finset Nat) fun _ => 1 := fun x =>
    ⟨fun a => by
      rw [countAt_alloc]
      by_cases ha : a = 1 <;> simp [ha, refs, countAt, Eq.comm], pos_alloc fun _ _ h => nomatch h⟩
  ⟨hone _, hone _⟩

/-- the tables of the child of a CLONE_CLEAR_SIGHAND clone of `ignoringSys` are live -/
theorem run_tables_live_clone :
    let sys := run ignoringSys [.clone CLONE_CLEAR_SIGHAND 1 2 ⟨true, some 2, some 2⟩]
    (sys.sighands (sys.signalOf 2).sighand).isSome ∧ (sys.accounts (sys.signalOf 2).cpuAccount).isSome :=
  @run_tables_live _ [.clone CLONE_CLEAR_SIGHAND 1 2 ⟨true, some 2, some 2⟩] ignoringSys_ok
    ⟨⟨by decide, fun _ h => by cases h; rfl, fun _ h => by cases h; rfl⟩, trivial⟩ 2 (by decide)

/-- the ignored SIGINT of `ignoringSys` is SIG_DFL in the child of a CLONE_CLEAR_SIGHAND clone, and in the task
itself after an execve -/
theorem clone_clear_and_exec_reset_ignored :
    let c : Callocs := ⟨true, some 2, some 2⟩
    let cloned := sysCloneInternal ignoringSys CLONE_CLEAR_SIGHAND 1 2 c
    let execed := taskDoExecveSignal ignoringSys 1 c
    ignoringSys.Ok ∧ Legal ignoringSys (.clone CLONE_CLEAR_SIGHAND 1 2 c) ∧ Legal ignoringSys (.execve 1 c) ∧
      (ignoringSys.actionsOf 1).map (fun act => (act SIGINT).saHandler) = some SIG_IGN ∧
      cloned.1 = .ok () ∧ (cloned.2.actionsOf 2).map (fun act => (act SIGINT).saHandler) = some SIG_DFL ∧
      execed.1 = .ok () ∧ (execed.2.actionsOf 1).map (fun act => (act SIGINT).saHandler) = some SIG_DFL := by
  have hfresh : Fresh ignoringSys ⟨true, some 2, some 2⟩ :=
    ⟨fun a h => by cases h; rfl, fun a h => by cases h; rfl⟩
  exact ⟨ignoringSys_ok, ⟨by decide, hfresh⟩, hfresh, rfl, rfl, rfl, rfl, rfl⟩

end Naos.SignalClone
