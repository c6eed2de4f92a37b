/-
The descriptor table of a task, `fd_info_t` in `task/task.c`, and the calls that change it in `fs/syscall/generic.c`:
`task_install_file`, `dup`, `dup2`, `dup3`, `F_DUPFD`/`F_DUPFD_CLOEXEC`, `close` and `close_range`.

A slot holds an open file and its FD flags; `next_fd` is where the scans for a free slot start, so every slot below it
is to be taken; `signalfd_refs` lists the slots that hold signalfd files. A slot takes one file reference and one fd
reference of its file when it is filled, and gives the fd reference back when it is emptied, handing the file
reference to the caller, which closes the file.

Results:
- `fdStep_tableOk`, `fdRun_tableOk`: every call keeps every slot below `next_fd` taken and the one at it empty, and
  `signalfd_refs` equal to the taken signalfd slots, whatever the allocations do; `Closed` is the induction rule
  behind them: what an install, a take, a growth and a mark of close-on-exec keep, every call keeps;
- `fdRun_fdRefs`: every call moves each file's fd references by the number of its slots;
- `sysCloseRange_slots`: `close_range` empties exactly the taken slots of the range, or with `CLOSE_RANGE_CLOEXEC`
  sets `FD_CLOEXEC` on exactly them;
- `taskFdInfoClone_slots`: a clone has the slots of the table it copies;
- `dupToFreeSlot_beyond_table`, `dupfd_past_table`: `F_DUPFD` from a start past the end of the table returns
  `-ENOMEM` though the start is free and below the limit.
-/
import Mathlib

namespace Naos.FdTable

def EBADF : Int := 9
def ENOMEM : Int := 12
def EEXIST : Int := 17
def EINVAL : Int := 22
def EMFILE : Int := 24
def FD_CLOEXEC : Nat := 0x1
def O_CLOEXEC : UInt64 := 0o2000000
def CLOSE_RANGE_UNSHARE : UInt64 := (1 : UInt64) <<< 1
def CLOSE_RANGE_CLOEXEC : UInt64 := (1 : UInt64) <<< 2
def FD_TABLE_INITIAL_SIZE : Nat := 64
def DEFAULT_NOFILE_LIMIT : Nat := 1024
def SIZE_MAX : Nat := 2 ^ 64 - 1
/-- `sizeof(fd_entry_t)`: a pointer and an `unsigned int`, padded -/
def SIZEOF_FD_ENTRY : Nat := 16

/-! ## The table -/

/-- `fd_entry_t`: the open file of a slot, by its number, and the FD flags -/
structure FdEntry where
  file : Option Nat
  flags : Nat
  deriving DecidableEq, Repr

/-- a slot as `calloc` and `task_fd_slot_take` leave it -/
def FdEntry.empty : FdEntry := ⟨none, 0⟩

/-- `fd_info_t`: the slots (`max_fds` of them), `next_fd`, the `(fd, file)` pairs of `signalfd_refs` in list order,
and the file and fd reference counts of the open files, as far as the table moves them -/
structure FdInfo where
  fds : List FdEntry
  nextFd : Nat
  signalfdRefs : List (Nat × Nat)
  fileRefs : Nat → Int
  fdRefs : Nat → Int

/-- what the table does not decide: which files are signalfd files, and whether `calloc` succeeds for a
`signalfd_ref_t`, for a larger slot array and for the list of files `close_range` closes -/
structure FdEnv where
  isSignalfd : Nat → Bool
  refOk : Bool
  expandOk : Bool
  closeListOk : Bool

/-- slot `i`; past `max_fds` a slot reads as empty -/
def FdInfo.slot (t : FdInfo) (i : Nat) : FdEntry := t.fds.getD i FdEntry.empty

/-- a reference count moved by `d` for file `f` -/
def bump (r : Nat → Int) (f : Nat) (d : Int) : Nat → Int := Function.update r f (r f + d)

/-- the loop of `task_fd_slot_install` that moves `next_fd` past the taken slots, `fuel` steps at most -/
def advanceNextFd (fds : List FdEntry) : Nat → Nat → Nat
  | 0, n => n
  | fuel + 1, n =>
    if n < fds.length ∧ (fds.getD n FdEntry.empty).file.isSome then advanceNextFd fds fuel (n + 1) else n

/-- `task_fd_slot_install`: the file and its flags put in an empty slot, its references taken, a `signalfd_ref_t`
added for a signalfd file, and `next_fd` moved past the taken slots when the slot was the one it named -/
def taskFdSlotInstall (env : FdEnv) (t : FdInfo) (fd file flags : Nat) : FdInfo × Int :=
  if fd ≥ t.fds.length then (t, -EINVAL)
  else if (t.slot fd).file.isSome then (t, -EEXIST)
  -- the references taken are put back and the slot cleared
  else if env.isSignalfd file && !env.refOk then ({ t with fds := t.fds.set fd FdEntry.empty }, -ENOMEM)
  else
    let fds := t.fds.set fd ⟨some file, flags⟩
    ({ t with fds := fds,
              nextFd := if fd = t.nextFd then advanceNextFd fds fds.length t.nextFd else t.nextFd,
              signalfdRefs := if env.isSignalfd file then t.signalfdRefs ++ [(fd, file)] else t.signalfdRefs,
              fileRefs := bump t.fileRefs file 1,
              fdRefs := bump t.fdRefs file 1 }, 0)

/-- `task_fd_slot_take`: the file and flags of a taken slot handed out, with the file reference, and the slot
emptied; `next_fd` moves down to it -/
def taskFdSlotTake (t : FdInfo) (fd : Nat) : FdInfo × Option (Nat × Nat) :=
  if fd ≥ t.fds.length then (t, none)
  else
    match (t.slot fd).file with
    | none => (t, none)
    | some f =>
      ({ t with fds := t.fds.set fd FdEntry.empty,
                nextFd := if fd < t.nextFd then fd else t.nextFd,
                -- `task_fd_signalfd_ref_remove_locked` deletes the first ref of the slot
                signalfdRefs := t.signalfdRefs.eraseP fun r => r.1 == fd,
                fdRefs := bump t.fdRefs f (-1) }, some (f, (t.slot fd).flags))

/-- `task_fd_info_expand`: the slot array grown to `minFds` empty slots at least -/
def taskFdInfoExpand (env : FdEnv) (t : FdInfo) (minFds : Nat) : FdInfo × Int :=
  if minFds ≤ t.fds.length then (t, 0)
  else if minFds > SIZE_MAX / SIZEOF_FD_ENTRY then (t, -ENOMEM)
  else if !env.expandOk then (t, -ENOMEM)
  else ({ t with fds := t.fds ++ List.replicate (minFds - t.fds.length) FdEntry.empty }, 0)

/-- the first empty slot of `[lo, hi)`, as the scans for a free slot find it -/
def firstFreeIn (t : FdInfo) (lo hi : Nat) : Option Nat :=
  (List.range' lo (hi - lo)).find? fun i => (t.slot i).file.isNone

/-- a scan of `task_install_file`: the file installed in the first empty slot of `[lo, hi)`; the call returns
`-EMFILE` when there is none or the install fails -/
def scanInstall (env : FdEnv) (t : FdInfo) (lo hi file fdFlags : Nat) : FdInfo × Int :=
  match firstFreeIn t lo hi with
  | some i =>
    let r := taskFdSlotInstall env t i file fdFlags
    if r.2 < 0 then (r.1, -EMFILE) else (r.1, i)
  | none => (t, -EMFILE)

/-- the size `task_install_file` and `dup_to_free_slot` grow a full table to: doubled, within `RLIMIT_NOFILE`, and
past the lower bound -/
def growSize (rlim oldMax lower : Nat) : Nat :=
  let newMax := min rlim (max (oldMax * 2) (oldMax + 1))
  if lower ≥ newMax then lower + 1 else newMax

/-- `task_install_file`: the scan from `next_fd` below the smaller of `max_fds` and `RLIMIT_NOFILE`, then, when it
finds no slot and the limit allows more, the table grown and the scan of the new slots -/
def taskInstallFile (env : FdEnv) (rlim : Nat) (t : FdInfo) (file fdFlags : Nat) (minFd : Int) : FdInfo × Int :=
  let minFd := minFd.toNat
  if minFd ≥ rlim then (t, -EMFILE)
  else
    let first := scanInstall env t (max minFd t.nextFd) (min t.fds.length rlim) file fdFlags
    if first.2 < 0 ∧ rlim > first.1.fds.length then
      let oldMax := first.1.fds.length
      let e := taskFdInfoExpand env first.1 (growSize rlim oldMax minFd)
      if e.2 < 0 then (e.1, -EMFILE)
      else scanInstall env e.1 (max minFd oldMax) (min e.1.fds.length rlim) file fdFlags
    else first

/-- the scan of `dup_to_free_slot`, `for (i = lo; i < limit; i++) if (!fds[i].file) break;`: the first empty slot,
else the index the loop stops at -/
def scanFree (t : FdInfo) (lo limit : Nat) : Nat := (firstFreeIn t lo limit).getD (max lo limit)

/-- the growth in `dup_to_free_slot` when its scan stopped at the limit `min max_fds RLIMIT_NOFILE` and the limit
allows more: the grown table, the slot the scan of the new slots stops at and the new limit; none when the table
cannot grow. Otherwise the table, the slot and the limit as they were. -/
def dupGrow (env : FdEnv) (rlim : Nat) (t : FdInfo) (start i : Nat) : Option (FdInfo × Nat × Nat) :=
  if i = min t.fds.length rlim ∧ rlim > t.fds.length then
    let e := taskFdInfoExpand env t (growSize rlim t.fds.length start)
    if e.2 < 0 then none
    else some (e.1, scanFree e.1 (max start t.fds.length) (min e.1.fds.length rlim), min e.1.fds.length rlim)
  else some (t, i, min t.fds.length rlim)

/-- `dup_to_free_slot`: the scan from `next_fd`, the growth, then the file of `fd` installed in the slot the scan
stopped at -/
def dupToFreeSlot (env : FdEnv) (rlim : Nat) (t : FdInfo) (fd start : Nat) (cloexec : Bool) : FdInfo × Int :=
  if fd ≥ rlim then (t, -EBADF)
  else if start ≥ rlim then (t, -EINVAL)
  else if fd ≥ t.fds.length then (t, -EBADF)
  else
    match (t.slot fd).file with
    | none => (t, -EBADF)
    | some f =>
      match dupGrow env rlim t start (scanFree t (max start t.nextFd) (min t.fds.length rlim)) with
      | none => (t, -ENOMEM)
      | some (t1, i, limit) =>
        if i = limit then (t1, -EMFILE)
        else
          -- the extra reference `vfs_file_get` takes around the install is put back after it
          let r := taskFdSlotInstall env t1 i f (if cloexec then FD_CLOEXEC else 0)
          if r.2 < 0 then (r.1, -ENOMEM) else (r.1, i)

/-- `dup_to_exact`: the table grown to hold `newfd`, the file of `newfd` taken, the file of `fd` installed there and
the taken one closed; when the install fails the taken file goes back into `newfd` with flags 0 -/
def dupToExact (env : FdEnv) (rlim : Nat) (t : FdInfo) (fd newfd : Nat) (cloexec allowSameFd : Bool) :
    FdInfo × Int :=
  if fd ≥ rlim then (t, -EBADF)
  else if newfd ≥ rlim then (t, -EBADF)
  else if fd ≥ t.fds.length then (t, -EBADF)
  else
    let e := if newfd ≥ t.fds.length then taskFdInfoExpand env t (newfd + 1) else (t, 0)
    if e.2 < 0 then (e.1, -ENOMEM)
    else
      match (e.1.slot fd).file with
      | none => (e.1, -EBADF)
      | some f =>
        if fd = newfd then (e.1, if allowSameFd then (newfd : Int) else -EINVAL)
        else
          let taken := taskFdSlotTake e.1 newfd
          let r := taskFdSlotInstall env taken.1 newfd f (if cloexec then FD_CLOEXEC else 0)
          if r.2 < 0 then
            match taken.2 with
            | some (g, _) => ((taskFdSlotInstall env r.1 newfd g 0).1, -ENOMEM)
            | none => (r.1, -ENOMEM)
          else
            match taken.2 with
            -- `vfs_close_file` of the replaced file, after the lock
            | some (g, _) => ({ r.1 with fileRefs := bump r.1.fileRefs g (-1) }, newfd)
            | none => (r.1, newfd)

def sysDup2 (env : FdEnv) (rlim : Nat) (t : FdInfo) (fd newfd : Nat) : FdInfo × Int :=
  dupToExact env rlim t fd newfd false true

def sysDup3 (env : FdEnv) (rlim : Nat) (t : FdInfo) (oldfd newfd : Nat) (flags : UInt64) : FdInfo × Int :=
  if flags &&& ~~~O_CLOEXEC ≠ 0 then (t, -EINVAL)
  else dupToExact env rlim t oldfd newfd (flags &&& O_CLOEXEC ≠ 0) false

def sysDup (env : FdEnv) (rlim : Nat) (t : FdInfo) (fd : Nat) : FdInfo × Int :=
  dupToFreeSlot env rlim t fd 0 false

/-- `sys_close`: the slot taken and its file closed -/
def sysClose (t : FdInfo) (fd : Nat) : FdInfo × Int :=
  if fd ≥ t.fds.length then (t, -EBADF)
  else
    match taskFdSlotTake t fd with
    | (t1, some (f, _)) => ({ t1 with fileRefs := bump t1.fileRefs f (-1) }, 0)
    | (t1, none) => (t1, -EBADF)

/-- the slots of `[lo, lo + n)` taken one after the other, and the files taken -/
def takeRange (t : FdInfo) : Nat → Nat → FdInfo × List Nat
  | _, 0 => (t, [])
  | lo, n + 1 =>
    let r := taskFdSlotTake t lo
    let rest := takeRange r.1 (lo + 1) n
    (rest.1, (r.2.map Prod.fst).toList ++ rest.2)

/-- `FD_CLOEXEC` set on the taken slots of `[lo, hi]` -/
def setCloexecRange (fds : List FdEntry) (lo hi : Nat) : List FdEntry :=
  fds.mapIdx fun k e => if lo ≤ k ∧ k ≤ hi ∧ e.file.isSome then { e with flags := e.flags ||| FD_CLOEXEC } else e

/-- `sys_close_range` on a table no other task shares: the range cut at the table, then its slots marked
close-on-exec, or taken and their files closed -/
def sysCloseRange (env : FdEnv) (t : FdInfo) (fd maxfd : Nat) (flags : UInt64) : FdInfo × Int :=
  if flags &&& ~~~(CLOSE_RANGE_UNSHARE ||| CLOSE_RANGE_CLOEXEC) ≠ 0 then (t, -EINVAL)
  else if fd > maxfd then (t, -EINVAL)
  else if fd ≥ t.fds.length then (t, 0)
  else
    let maxfd := min maxfd (t.fds.length - 1)
    if flags &&& CLOSE_RANGE_CLOEXEC ≠ 0 then ({ t with fds := setCloexecRange t.fds fd maxfd }, 0)
    else if !env.closeListOk then (t, -ENOMEM)
    else
      let r := takeRange t fd (maxfd + 1 - fd)
      ({ r.1 with fileRefs := r.2.foldl (fun refs f => bump refs f (-1)) r.1.fileRefs }, 0)

/-- one call on the table, with the `RLIMIT_NOFILE` of the task -/
inductive FdOp
  | install (file fdFlags : Nat) (minFd : Int)
  | dup (fd : Nat)
  | dup2 (fd newfd : Nat)
  | dup3 (oldfd newfd : Nat) (flags : UInt64)
  | dupfd (fd start : Nat) (cloexec : Bool)
  | close (fd : Nat)
  | closeRange (fd maxfd : Nat) (flags : UInt64)

def fdStep (env : FdEnv) (rlim : Nat) (t : FdInfo) : FdOp → FdInfo × Int
  | .install file fdFlags minFd => taskInstallFile env rlim t file fdFlags minFd
  | .dup fd => sysDup env rlim t fd
  | .dup2 fd newfd => sysDup2 env rlim t fd newfd
  | .dup3 oldfd newfd flags => sysDup3 env rlim t oldfd newfd flags
  | .dupfd fd start cloexec => dupToFreeSlot env rlim t fd start cloexec
  | .close fd => sysClose t fd
  | .closeRange fd maxfd flags => sysCloseRange env t fd maxfd flags

/-- the table after a sequence of calls, each with its own environment and limit -/
def fdRun (t : FdInfo) : List (FdEnv × Nat × FdOp) → FdInfo
  | [] => t
  | (env, rlim, op) :: ops => fdRun (fdStep env rlim t op).1 ops

/-! ## Slots -/

section Slots

variable {t : FdInfo}

theorem slot_of_ge {i : Nat} (h : t.fds.length ≤ i) : t.slot i = FdEntry.empty := by
  simp [FdInfo.slot, List.getD_eq_getElem?_getD, List.getElem?_eq_none h]

/-- a slot written, and the others as they were; past the table nothing is written -/
theorem getD_set (fds : List FdEntry) (fd i : Nat) (e : FdEntry) :
    (fds.set fd e).getD i FdEntry.empty = if i = fd ∧ fd < fds.length then e else fds.getD i FdEntry.empty := by
  simp only [List.getD_eq_getElem?_getD, List.getElem?_set]
  by_cases hi : fd = i
  · subst hi
    by_cases hl : fd < fds.length
    · simp [hl]
    · simp [hl]
  · simp [hi, Ne.symm hi]

/-- the loop over `next_fd` stops at the first empty slot from where it starts, or at the end of the table -/
theorem advanceNextFd_spec (fds : List FdEntry) :
    ∀ fuel n, fds.length ≤ n + fuel → n ≤ fds.length →
      n ≤ advanceNextFd fds fuel n ∧ advanceNextFd fds fuel n ≤ fds.length ∧
      (∀ k, n ≤ k → k < advanceNextFd fds fuel n → (fds.getD k FdEntry.empty).file.isSome) ∧
      (advanceNextFd fds fuel n < fds.length → (fds.getD (advanceNextFd fds fuel n) FdEntry.empty).file = none) := by
  intro fuel
  induction fuel with
  | zero =>
    intro n hfuel hn
    refine ⟨le_rfl, hn, fun k hk hlt => absurd hlt (by simp [advanceNextFd]; omega), fun h => ?_⟩
    simp only [advanceNextFd] at h
    omega
  | succ fuel ih =>
    intro n hfuel hn
    simp only [advanceNextFd]
    split
    · rename_i htaken
      obtain ⟨h1, h2, h3, h4⟩ := ih (n + 1) (by omega) htaken.1
      refine ⟨by omega, h2, fun k hk hlt => ?_, h4⟩
      rcases Nat.eq_or_lt_of_le hk with rfl | hk
      · exact htaken.2
      · exact h3 k hk hlt
    · rename_i hstop
      refine ⟨le_rfl, hn, fun k hk hlt => absurd hlt (by omega), fun h => ?_⟩
      simpa [h] using hstop

/-- the two ends of the signalfd list of a slot: the pairs of the list whose slot is not `fd` are what is left when
the first pair of `fd` is deleted -/
theorem mem_eraseP_fst {l : List (Nat × Nat)} (hnd : (l.map Prod.fst).Nodup) (fd : Nat) (x : Nat × Nat) :
    x ∈ l.eraseP (fun r => r.1 == fd) ↔ x ∈ l ∧ x.1 ≠ fd := by
  induction l with
  | nil => simp
  | cons r l ih =>
    simp only [List.map_cons, List.nodup_cons, List.mem_map] at hnd
    rw [List.eraseP_cons]
    by_cases hr : r.1 = fd
    · simp only [hr, beq_self_eq_true, cond_true, List.mem_cons]
      constructor
      · intro hx
        exact ⟨.inr hx, fun h => hnd.1 ⟨x, hx, h.trans hr.symm⟩⟩
      · rintro ⟨rfl | hx, hne⟩
        · exact absurd hr hne
        · exact hx
    · simp only [beq_false_of_ne hr, cond_false, List.mem_cons, ih hnd.2]
      constructor
      · rintro (rfl | ⟨hx, hne⟩)
        · exact ⟨.inl rfl, hr⟩
        · exact ⟨.inr hx, hne⟩
      · rintro ⟨rfl | hx, hne⟩
        · exact .inl rfl
        · exact .inr ⟨hx, hne⟩

end Slots

/-! ## The invariant of the table -/

/-- what the table keeps: every slot below `next_fd` taken and the one at it empty, `signalfd_refs` naming each
taken signalfd slot once and nothing else, and empty slots without flags -/
structure TableOk (isSignalfd : Nat → Bool) (t : FdInfo) : Prop where
  next_le : t.nextFd ≤ t.fds.length
  below_next : ∀ k < t.nextFd, (t.slot k).file.isSome
  at_next : t.nextFd < t.fds.length → (t.slot t.nextFd).file = none
  refs_nodup : (t.signalfdRefs.map Prod.fst).Nodup
  mem_refs : ∀ fd f, (fd, f) ∈ t.signalfdRefs ↔ (t.slot fd).file = some f ∧ isSignalfd f = true
  empty_flags : ∀ k, (t.slot k).file = none → (t.slot k).flags = 0

section Install

variable {env : FdEnv} {t : FdInfo} {fd file flags : Nat}

@[simp] theorem tableOk_withFileRefs (isSignalfd : Nat → Bool) (r : Nat → Int) :
    TableOk isSignalfd { t with fileRefs := r } ↔ TableOk isSignalfd t :=
  ⟨fun h => ⟨h.next_le, h.below_next, h.at_next, h.refs_nodup, h.mem_refs, h.empty_flags⟩,
    fun h => ⟨h.next_le, h.below_next, h.at_next, h.refs_nodup, h.mem_refs, h.empty_flags⟩⟩

/-- an install that fails leaves the table as it was: the slot it clears was empty, without flags -/
theorem taskFdSlotInstall_failed (hok : TableOk env.isSignalfd t)
    (h : (taskFdSlotInstall env t fd file flags).2 < 0) : (taskFdSlotInstall env t fd file flags).1 = t := by
  unfold taskFdSlotInstall at h ⊢
  by_cases hge : fd ≥ t.fds.length
  · rw [if_pos hge]
  rw [if_neg hge] at h ⊢
  by_cases htaken : (t.slot fd).file.isSome
  · rw [if_pos htaken]
  rw [if_neg htaken] at h ⊢
  by_cases hsig : (env.isSignalfd file && !env.refOk) = true
  · rw [if_pos hsig]
    have hfd : fd < t.fds.length := Nat.lt_of_not_le hge
    have hfree : (t.slot fd).file = none := by simpa using htaken
    have hentry : t.fds[fd] = FdEntry.empty := by
      have h1 : t.slot fd = t.fds[fd] := by simp [FdInfo.slot, List.getD_eq_getElem?_getD, hfd]
      rw [← h1]
      cases hs : t.slot fd with
      | mk f fl =>
        have hf : f = none := by rw [hs] at hfree; exact hfree
        have hfl : fl = 0 := by have := hok.empty_flags fd hfree; rw [hs] at this; exact this
        rw [hf, hfl]
        rfl
    simp only [← hentry, List.set_getElem_self]
  · rw [if_neg hsig] at h
    simp at h

/-- an install that succeeds: the slot was empty within the table, and is filled -/
theorem taskFdSlotInstall_ok (h : ¬ (taskFdSlotInstall env t fd file flags).2 < 0) :
    fd < t.fds.length ∧ (t.slot fd).file = none ∧ (env.isSignalfd file && !env.refOk) = false ∧
      taskFdSlotInstall env t fd file flags =
        (⟨t.fds.set fd ⟨some file, flags⟩,
          if fd = t.nextFd then advanceNextFd (t.fds.set fd ⟨some file, flags⟩) t.fds.length t.nextFd else t.nextFd,
          if env.isSignalfd file then t.signalfdRefs ++ [(fd, file)] else t.signalfdRefs,
          bump t.fileRefs file 1, bump t.fdRefs file 1⟩, 0) := by
  unfold taskFdSlotInstall at h ⊢
  by_cases hge : fd ≥ t.fds.length
  · rw [if_pos hge] at h
    simp [EINVAL] at h
  rw [if_neg hge] at h ⊢
  by_cases htaken : (t.slot fd).file.isSome
  · rw [if_pos htaken] at h
    simp [EEXIST] at h
  rw [if_neg htaken] at h ⊢
  by_cases hsig : (env.isSignalfd file && !env.refOk) = true
  · rw [if_pos hsig] at h
    simp [ENOMEM] at h
  rw [if_neg hsig]
  refine ⟨Nat.lt_of_not_le hge, by simpa using htaken, by simpa using hsig, ?_⟩
  simp

theorem taskFdSlotInstall_ret (env : FdEnv) (t : FdInfo) (fd file flags : Nat) :
    (taskFdSlotInstall env t fd file flags).2 = 0 ∨ (taskFdSlotInstall env t fd file flags).2 < 0 := by
  unfold taskFdSlotInstall
  by_cases hge : fd ≥ t.fds.length
  · simp [hge, EINVAL]
  by_cases htaken : (t.slot fd).file.isSome
  · simp [hge, htaken, EEXIST]
  by_cases hsig : (env.isSignalfd file && !env.refOk) = true
  · simp [hge, htaken, hsig, ENOMEM]
  · simp [hge, htaken, hsig]

theorem TableOk.install (hok : TableOk env.isSignalfd t) (fd file flags : Nat) :
    TableOk env.isSignalfd (taskFdSlotInstall env t fd file flags).1 := by
  rcases taskFdSlotInstall_ret env t fd file flags with h0 | hneg
  swap
  · rw [taskFdSlotInstall_failed hok hneg]
    exact hok
  have hnneg : ¬ (taskFdSlotInstall env t fd file flags).2 < 0 := by rw [h0]; simp
  obtain ⟨hfd, hfree, -, heq⟩ := taskFdSlotInstall_ok hnneg
  rw [heq]
  have hslot : ∀ k, (t.fds.set fd ⟨some file, flags⟩).getD k FdEntry.empty =
      if k = fd then ⟨some file, flags⟩ else t.slot k := by
    intro k
    rw [getD_set]
    by_cases hk : k = fd <;> simp [hk, hfd, FdInfo.slot]
  have hge : t.nextFd ≤ fd := by
    by_contra hlt
    have := hok.below_next fd (by omega)
    simp [hfree] at this
  have hnot : ∀ g, (fd, g) ∉ t.signalfdRefs := fun g hg => by simp [(hok.mem_refs fd g).1 hg |>.1] at hfree
  constructor
  · dsimp only
    split
    · exact (advanceNextFd_spec _ _ _ (by simp) (by simpa using hok.next_le)).2.1.trans (by simp)
    · simpa using hok.next_le
  · dsimp only
    intro k hk
    change ((t.fds.set fd ⟨some file, flags⟩).getD k FdEntry.empty).file.isSome
    split at hk
    · rename_i hnext
      by_cases hkn : k < t.nextFd
      · rw [hslot, if_neg (by omega)]
        exact hok.below_next k hkn
      · exact (advanceNextFd_spec _ _ _ (by simp) (by simpa using hok.next_le)).2.2.1 k (by omega) hk
    · rw [hslot, if_neg (by omega)]
      exact hok.below_next k hk
  · dsimp only
    intro hlt
    change ((t.fds.set fd ⟨some file, flags⟩).getD _ FdEntry.empty).file = none
    by_cases hnext : fd = t.nextFd
    · rw [if_pos hnext] at hlt ⊢
      exact (advanceNextFd_spec _ _ _ (by simp) (by simpa using hok.next_le)).2.2.2 (by simpa using hlt)
    · rw [if_neg hnext] at hlt ⊢
      rw [hslot, if_neg (Ne.symm hnext)]
      exact hok.at_next (by simpa using hlt)
  · dsimp only
    split
    · rw [List.map_append, List.nodup_append]
      refine ⟨hok.refs_nodup, List.nodup_singleton _, ?_⟩
      intro a ha b hb hab
      simp only [List.mem_map, List.map_cons, List.map_nil, List.mem_singleton] at ha hb
      obtain ⟨⟨x, g⟩, hxg, rfl⟩ := ha
      subst hb
      have hxb : x = b := hab
      subst hxb
      exact hnot g hxg
    · exact hok.refs_nodup
  · dsimp only
    intro x g
    change _ ↔ ((t.fds.set fd ⟨some file, flags⟩).getD x FdEntry.empty).file = some g ∧ _
    rw [hslot]
    by_cases hx : x = fd
    · subst hx
      simp only [if_true, Option.some.injEq]
      split
      · rename_i hsig
        simp only [List.mem_append, List.mem_singleton, Prod.mk.injEq, true_and]
        constructor
        · rintro (hmem | rfl)
          · exact absurd hmem (hnot g)
          · exact ⟨rfl, hsig⟩
        · rintro ⟨rfl, -⟩
          exact .inr rfl
      · rename_i hsig
        constructor
        · intro hmem
          exact absurd hmem (hnot g)
        · rintro ⟨rfl, hg⟩
          exact absurd hg hsig
    · rw [if_neg hx, ← hok.mem_refs]
      split <;> simp [hx]
  · dsimp only
    intro k hk
    change ((t.fds.set fd ⟨some file, flags⟩).getD k FdEntry.empty).flags = 0
    change ((t.fds.set fd ⟨some file, flags⟩).getD k FdEntry.empty).file = none at hk
    rw [hslot] at hk ⊢
    split at hk
    · simp at hk
    · rename_i hkfd
      rw [if_neg hkfd]
      exact hok.empty_flags k hk

end Install

section Take

variable {env : FdEnv} {t : FdInfo} {fd : Nat}

/-- a take of a taken slot of the table: the slot emptied, and its file and flags handed out -/
theorem taskFdSlotTake_of_taken {f : Nat} (hfd : fd < t.fds.length) (hf : (t.slot fd).file = some f) :
    taskFdSlotTake t fd =
      (⟨t.fds.set fd FdEntry.empty, if fd < t.nextFd then fd else t.nextFd,
        t.signalfdRefs.eraseP (fun r => r.1 == fd), t.fileRefs, bump t.fdRefs f (-1)⟩, some (f, (t.slot fd).flags)) := by
  unfold taskFdSlotTake
  rw [if_neg (by omega)]
  split
  · rename_i hnone
    rw [hnone] at hf
    cases hf
  · rename_i g hg
    rw [hg] at hf
    cases hf
    rfl

/-- a take of an empty slot, or of one past the table, changes nothing -/
theorem taskFdSlotTake_of_free (h : (t.slot fd).file = none) : taskFdSlotTake t fd = (t, none) := by
  unfold taskFdSlotTake
  split
  · rfl
  · rw [h]

theorem taskFdSlotTake_cases (t : FdInfo) (fd : Nat) :
    taskFdSlotTake t fd = (t, none) ∧ (t.slot fd).file = none ∨
      ∃ f, fd < t.fds.length ∧ (t.slot fd).file = some f ∧
        taskFdSlotTake t fd =
          (⟨t.fds.set fd FdEntry.empty, if fd < t.nextFd then fd else t.nextFd,
            t.signalfdRefs.eraseP (fun r => r.1 == fd), t.fileRefs, bump t.fdRefs f (-1)⟩,
            some (f, (t.slot fd).flags)) := by
  cases hf : (t.slot fd).file with
  | none => exact .inl ⟨taskFdSlotTake_of_free hf, rfl⟩
  | some f =>
    have hfd : fd < t.fds.length := by
      by_contra hge
      rw [slot_of_ge (Nat.le_of_not_lt hge)] at hf
      cases hf
    exact .inr ⟨f, hfd, rfl, taskFdSlotTake_of_taken hfd hf⟩

theorem TableOk.take {isSignalfd : Nat → Bool} (hok : TableOk isSignalfd t) (fd : Nat) :
    TableOk isSignalfd (taskFdSlotTake t fd).1 := by
  rcases taskFdSlotTake_cases t fd with ⟨heq, -⟩ | ⟨f, hfd, hf, heq⟩
  · rw [heq]
    exact hok
  rw [heq]
  have hslot : ∀ k, (t.fds.set fd FdEntry.empty).getD k FdEntry.empty = if k = fd then FdEntry.empty else t.slot k := by
    intro k
    rw [getD_set]
    by_cases hk : k = fd <;> simp [hk, hfd, FdInfo.slot]
  have hnext : t.nextFd ≠ fd := by
    intro h
    have := hok.at_next (by omega)
    rw [h, hf] at this
    cases this
  constructor
  · dsimp only
    split
    · simpa using hfd.le
    · simpa using hok.next_le
  · dsimp only
    intro k hk
    change ((t.fds.set fd FdEntry.empty).getD k FdEntry.empty).file.isSome
    rw [hslot, if_neg (by split at hk <;> omega)]
    exact hok.below_next k (by split at hk <;> omega)
  · dsimp only
    intro hlt
    change ((t.fds.set fd FdEntry.empty).getD _ FdEntry.empty).file = none
    split
    · rw [hslot, if_pos rfl]
      rfl
    · rename_i hge
      rw [if_neg hge] at hlt
      rw [hslot, if_neg hnext]
      exact hok.at_next (by simpa using hlt)
  · exact hok.refs_nodup.sublist (List.eraseP_sublist.map _)
  · dsimp only
    intro x g
    change _ ↔ ((t.fds.set fd FdEntry.empty).getD x FdEntry.empty).file = some g ∧ _
    rw [mem_eraseP_fst hok.refs_nodup, hslot, hok.mem_refs]
    by_cases hx : x = fd
    · simp [hx, FdEntry.empty]
    · simp [hx]
  · dsimp only
    intro k hk
    change ((t.fds.set fd FdEntry.empty).getD k FdEntry.empty).file = none at hk
    change ((t.fds.set fd FdEntry.empty).getD k FdEntry.empty).flags = 0
    rw [hslot] at hk ⊢
    split
    · rfl
    · rename_i hkfd
      rw [if_neg hkfd] at hk
      exact hok.empty_flags k hk

end Take

section Expand

variable {env : FdEnv} {t : FdInfo}

/-- a growth adds empty slots: every slot reads as before -/
@[simp] theorem taskFdInfoExpand_slot (minFds k : Nat) : (taskFdInfoExpand env t minFds).1.slot k = t.slot k := by
  unfold taskFdInfoExpand
  split_ifs
  · rfl
  · rfl
  · rfl
  · simp only [FdInfo.slot, List.getD_eq_getElem?_getD, List.getElem?_append]
    split
    · rfl
    · rename_i hk
      rw [List.getElem?_eq_none (Nat.le_of_not_lt hk), List.getElem?_replicate]
      split <;> rfl

@[simp] theorem taskFdInfoExpand_nextFd (minFds : Nat) : (taskFdInfoExpand env t minFds).1.nextFd = t.nextFd := by
  unfold taskFdInfoExpand
  split_ifs <;> rfl

@[simp] theorem taskFdInfoExpand_signalfdRefs (minFds : Nat) :
    (taskFdInfoExpand env t minFds).1.signalfdRefs = t.signalfdRefs := by
  unfold taskFdInfoExpand
  split_ifs <;> rfl

theorem taskFdInfoExpand_length_le (minFds : Nat) : t.fds.length ≤ (taskFdInfoExpand env t minFds).1.fds.length := by
  unfold taskFdInfoExpand
  split_ifs <;> simp

theorem TableOk.expand {isSignalfd : Nat → Bool} (hok : TableOk isSignalfd t) (minFds : Nat) :
    TableOk isSignalfd (taskFdInfoExpand env t minFds).1 := by
  have hlen : t.fds.length ≤ (taskFdInfoExpand env t minFds).1.fds.length := taskFdInfoExpand_length_le minFds
  refine ⟨?_, ?_, fun h => ?_, ?_, ?_, ?_⟩
  · rw [taskFdInfoExpand_nextFd]
    exact hok.next_le.trans hlen
  · simpa using hok.below_next
  · rw [taskFdInfoExpand_slot, taskFdInfoExpand_nextFd]
    rcases Nat.lt_or_ge t.nextFd t.fds.length with hlt | hge
    · exact hok.at_next hlt
    · rw [slot_of_ge hge]
      rfl
  · simpa using hok.refs_nodup
  · simpa using hok.mem_refs
  · simpa using hok.empty_flags

end Expand

/-! ## Close-on-exec -/

section Cloexec

variable {t : FdInfo}

theorem setCloexecRange_getD (fds : List FdEntry) (lo hi k : Nat) :
    (setCloexecRange fds lo hi).getD k FdEntry.empty =
      if lo ≤ k ∧ k ≤ hi ∧ (fds.getD k FdEntry.empty).file.isSome then
        { fds.getD k FdEntry.empty with flags := (fds.getD k FdEntry.empty).flags ||| FD_CLOEXEC }
      else fds.getD k FdEntry.empty := by
  simp only [setCloexecRange, List.getD_eq_getElem?_getD, List.getElem?_mapIdx]
  cases fds[k]? with
  | none => simp [FdEntry.empty]
  | some e => simp

@[simp] theorem setCloexecRange_length (fds : List FdEntry) (lo hi : Nat) :
    (setCloexecRange fds lo hi).length = fds.length := by
  simp [setCloexecRange]

/-- marking close-on-exec changes flags of taken slots only: no slot changes its file -/
theorem TableOk.setCloexec {isSignalfd : Nat → Bool} (hok : TableOk isSignalfd t) (lo hi : Nat) :
    TableOk isSignalfd { t with fds := setCloexecRange t.fds lo hi } := by
  have hfile : ∀ k, ((setCloexecRange t.fds lo hi).getD k FdEntry.empty).file = (t.slot k).file := by
    intro k
    rw [setCloexecRange_getD]
    split <;> rfl
  refine ⟨by simpa using hok.next_le, fun k hk => ?_, fun h => ?_, hok.refs_nodup, fun x g => ?_, fun k hk => ?_⟩
  · change ((setCloexecRange t.fds lo hi).getD k FdEntry.empty).file.isSome
    rw [hfile]
    exact hok.below_next k hk
  · change ((setCloexecRange t.fds lo hi).getD _ FdEntry.empty).file = none
    rw [hfile]
    exact hok.at_next (by simpa using h)
  · change _ ↔ ((setCloexecRange t.fds lo hi).getD x FdEntry.empty).file = some g ∧ _
    rw [hfile]
    exact hok.mem_refs x g
  · change ((setCloexecRange t.fds lo hi).getD k FdEntry.empty).file = none at hk
    change ((setCloexecRange t.fds lo hi).getD k FdEntry.empty).flags = 0
    rw [hfile] at hk
    rw [setCloexecRange_getD, if_neg (by simp [FdInfo.slot] at hk; simp [hk])]
    exact hok.empty_flags k hk

end Cloexec

/-! ## What every call keeps -/

/-- a property of tables that the steps the calls are made of keep, with the allocations of `env`: an install, a
take, a growth, a mark of close-on-exec and a change of the file reference counts -/
structure Closed (env : FdEnv) (P : FdInfo → Prop) : Prop where
  install : ∀ t fd file flags, P t → P (taskFdSlotInstall env t fd file flags).1
  take : ∀ t fd, P t → P (taskFdSlotTake t fd).1
  expand : ∀ t n, P t → P (taskFdInfoExpand env t n).1
  cloexec : ∀ t lo hi, P t → P { t with fds := setCloexecRange t.fds lo hi }
  fileRefs : ∀ t r, P t → P { t with fileRefs := r }

namespace Closed

variable {env : FdEnv} {P : FdInfo → Prop} {rlim : Nat} {t : FdInfo}

theorem scanInstall (hc : Closed env P) (hp : P t) (lo hi file fdFlags : Nat) :
    P (Naos.FdTable.scanInstall env t lo hi file fdFlags).1 := by
  unfold Naos.FdTable.scanInstall
  split
  · dsimp only
    split <;> exact hc.install _ _ _ _ hp
  · exact hp

theorem taskInstallFile (hc : Closed env P) (hp : P t) (file fdFlags : Nat) (minFd : Int) :
    P (Naos.FdTable.taskInstallFile env rlim t file fdFlags minFd).1 := by
  unfold Naos.FdTable.taskInstallFile
  dsimp only
  split
  · exact hp
  split
  · have hfirst := hc.scanInstall hp (max minFd.toNat t.nextFd) (min t.fds.length rlim) file fdFlags
    split
    · exact hc.expand _ _ hfirst
    · exact hc.scanInstall (hc.expand _ _ hfirst) _ _ _ _
  · exact hc.scanInstall hp _ _ _ _

/-- the growth gives the table back, or the table grown -/
theorem dupGrow_table {start i : Nat} {t1 : FdInfo} {j limit : Nat}
    (h : dupGrow env rlim t start i = some (t1, j, limit)) : t1 = t ∨ ∃ n, t1 = (taskFdInfoExpand env t n).1 := by
  unfold dupGrow at h
  split at h
  · dsimp only at h
    split at h
    · cases h
    · cases h
      exact .inr ⟨_, rfl⟩
  · cases h
    exact .inl rfl

theorem dupToFreeSlot (hc : Closed env P) (hp : P t) (fd start : Nat) (cloexec : Bool) :
    P (Naos.FdTable.dupToFreeSlot env rlim t fd start cloexec).1 := by
  unfold Naos.FdTable.dupToFreeSlot
  split
  · exact hp
  split
  · exact hp
  split
  · exact hp
  split
  · exact hp
  split
  · exact hp
  · rename_i t1 j limit hgrow
    have h1 : P t1 := by
      rcases dupGrow_table hgrow with rfl | ⟨n, rfl⟩
      · exact hp
      · exact hc.expand _ n hp
    dsimp only
    generalize (if cloexec then FD_CLOEXEC else 0) = fl
    split
    · exact h1
    · split <;> exact hc.install _ _ _ _ h1

theorem dupToExact (hc : Closed env P) (hp : P t) (fd newfd : Nat) (cloexec allowSameFd : Bool) :
    P (Naos.FdTable.dupToExact env rlim t fd newfd cloexec allowSameFd).1 := by
  unfold Naos.FdTable.dupToExact
  split
  · exact hp
  split
  · exact hp
  split
  · exact hp
  have he : P (if newfd ≥ t.fds.length then taskFdInfoExpand env t (newfd + 1) else (t, 0)).1 := by
    split
    · exact hc.expand _ _ hp
    · exact hp
  dsimp only
  generalize (if newfd ≥ t.fds.length then taskFdInfoExpand env t (newfd + 1) else (t, 0)) = e at he ⊢
  generalize (if cloexec then FD_CLOEXEC else 0) = fl
  split
  · exact he
  split
  · exact he
  rename_i f _
  split
  · exact he
  have hr := hc.install _ newfd f fl (hc.take _ newfd he)
  split
  · split
    · exact hc.install _ _ _ _ hr
    · exact hr
  · split
    · exact hc.fileRefs _ _ hr
    · exact hr

theorem sysClose (hc : Closed env P) (hp : P t) (fd : Nat) : P (Naos.FdTable.sysClose t fd).1 := by
  unfold Naos.FdTable.sysClose
  split
  · exact hp
  · have htake := hc.take _ fd hp
    split
    · rename_i t1 f fl heq
      rw [heq] at htake
      exact hc.fileRefs _ _ htake
    · rename_i t1 heq
      rw [heq] at htake
      exact htake

theorem takeRange (hc : Closed env P) (hp : P t) (lo n : Nat) : P (Naos.FdTable.takeRange t lo n).1 := by
  induction n generalizing t lo with
  | zero => exact hp
  | succ n ih => exact ih (hc.take _ lo hp) (lo + 1)

theorem sysCloseRange (hc : Closed env P) (hp : P t) (fd maxfd : Nat) (flags : UInt64) :
    P (Naos.FdTable.sysCloseRange env t fd maxfd flags).1 := by
  unfold Naos.FdTable.sysCloseRange
  split
  · exact hp
  split
  · exact hp
  split
  · exact hp
  dsimp only
  split
  · exact hc.cloexec _ _ _ hp
  split
  · exact hp
  · exact hc.fileRefs _ _ (hc.takeRange hp _ _)

/-- every call keeps what its steps keep -/
theorem fdStep (hc : Closed env P) (hp : P t) (op : FdOp) : P (Naos.FdTable.fdStep env rlim t op).1 := by
  cases op with
  | install file fdFlags minFd => exact hc.taskInstallFile hp file fdFlags minFd
  | dup fd => exact hc.dupToFreeSlot hp fd 0 false
  | dup2 fd newfd => exact hc.dupToExact hp fd newfd false true
  | dup3 oldfd newfd flags =>
    simp only [Naos.FdTable.fdStep, sysDup3]
    split
    · exact hp
    · exact hc.dupToExact hp _ _ _ _
  | dupfd fd start cloexec => exact hc.dupToFreeSlot hp fd start cloexec
  | close fd => exact hc.sysClose hp fd
  | closeRange fd maxfd flags => exact hc.sysCloseRange hp fd maxfd flags

/-- and so does every run whose calls all keep it -/
theorem fdRun {ops : List (FdEnv × Nat × FdOp)} (hc : ∀ c ∈ ops, Closed c.1 P) (hp : P t) :
    P (Naos.FdTable.fdRun t ops) := by
  induction ops generalizing t with
  | nil => exact hp
  | cons c ops ih =>
    obtain ⟨env, rlim, op⟩ := c
    exact ih (fun c hmem => hc c (List.mem_cons_of_mem _ hmem)) ((hc _ List.mem_cons_self).fdStep hp op)

end Closed

/-! ## The invariant over every call -/

/-- the invariant of the table is kept by the steps of every call -/
theorem tableOk_closed (env : FdEnv) : Closed env (TableOk env.isSignalfd) :=
  ⟨fun _ _ _ _ hok => hok.install _ _ _, fun _ _ hok => hok.take _, fun _ _ hok => hok.expand _,
    fun _ _ _ hok => hok.setCloexec _ _, fun _ _ hok => (tableOk_withFileRefs _ _).2 hok⟩

/-- every call keeps the invariant of the table, whatever its allocations do -/
theorem fdStep_tableOk {env : FdEnv} {rlim : Nat} {t : FdInfo} (hok : TableOk env.isSignalfd t) (op : FdOp) :
    TableOk env.isSignalfd (fdStep env rlim t op).1 :=
  (tableOk_closed env).fdStep hok op

/-- along any run whose calls agree on which files are signalfd files -/
theorem fdRun_tableOk {isSignalfd : Nat → Bool} {t : FdInfo} {ops : List (FdEnv × Nat × FdOp)}
    (hsig : ∀ c ∈ ops, c.1.isSignalfd = isSignalfd) (hok : TableOk isSignalfd t) : TableOk isSignalfd (fdRun t ops) :=
  Closed.fdRun (fun c hc => hsig c hc ▸ tableOk_closed c.1) hok

/-- no signalfd files, and every allocation succeeds -/
def plainEnv : FdEnv := ⟨fun _ => false, true, true, true⟩

/-- a table of four empty slots -/
def fourEmpty : FdInfo := ⟨List.replicate 4 .empty, 0, [], fun _ => 0, fun _ => 0⟩

theorem fourEmpty_ok (isSignalfd : Nat → Bool) : TableOk isSignalfd fourEmpty := by
  have hslot : ∀ k, fourEmpty.slot k = .empty := fun k => by
    simp only [FdInfo.slot, fourEmpty, List.getD_eq_getElem?_getD, List.getElem?_replicate]
    split <;> rfl
  exact ⟨by decide, fun _ h => absurd h (Nat.not_lt_zero _), fun _ => by rw [hslot]; rfl, List.nodup_nil,
    fun _ _ => by rw [hslot]; simp [fourEmpty, FdEntry.empty], fun k _ => by rw [hslot]; rfl⟩

theorem fdRun_tableOk_install : TableOk plainEnv.isSignalfd (fdRun fourEmpty [(plainEnv, 4, .install 7 0 0)]) :=
  fdRun_tableOk (by simp) (fourEmpty_ok _)

/-! ## One fd reference per slot -/

/-- the number of slots that hold file `f` -/
def FdInfo.held (t : FdInfo) (f : Nat) : Nat := t.fds.countP fun e => e.file == some f

section FdRefs

variable {t : FdInfo} {f : Nat}

/-- writing a slot of the table moves the count of a file by what the slot held and what it holds -/
theorem countP_set_held (fds : List FdEntry) {fd : Nat} (hfd : fd < fds.length) (e : FdEntry) (f : Nat) :
    (((fds.set fd e).countP fun x => x.file == some f : Nat) : Int) =
      (fds.countP fun x => x.file == some f : Nat) - (if fds[fd].file = some f then 1 else 0) +
        (if e.file = some f then 1 else 0) := by
  rw [List.countP_set hfd]
  have hle : (if (fds[fd].file == some f) = true then 1 else 0) ≤ fds.countP fun x => x.file == some f := by
    split
    · exact List.countP_pos_iff.2 ⟨_, List.getElem_mem hfd, by assumption⟩
    · exact Nat.zero_le _
  simp only [beq_iff_eq] at hle ⊢
  split <;> split <;> simp_all

theorem slot_eq_getElem {i : Nat} (h : i < t.fds.length) : t.slot i = t.fds[i] := by
  simp [FdInfo.slot, List.getD_eq_getElem?_getD, h]

/-- the fd references of `f` that no slot accounts for, kept by the steps of every call -/
theorem fdRefs_closed (env : FdEnv) (f : Nat) (c : Int) :
    Closed env (fun t => t.fdRefs f - t.held f = c) := by
  refine ⟨fun t fd file flags h => ?_, fun t fd h => ?_, fun t n h => ?_, fun t lo hi h => ?_, fun _ _ h => h⟩
  · unfold taskFdSlotInstall
    split
    · exact h
    split
    · exact h
    rename_i hge hfree
    have hfd : fd < t.fds.length := by omega
    have hnone : t.fds[fd].file = none := by rw [← slot_eq_getElem hfd]; simpa using hfree
    split
    · simp only [FdInfo.held, countP_set_held t.fds hfd, hnone]
      simpa [FdEntry.empty, FdInfo.held] using h
    · simp only [FdInfo.held, countP_set_held t.fds hfd, hnone]
      simp only [FdInfo.held] at h
      by_cases hf : file = f
      · subst hf
        simp [bump]
        omega
      · simp [bump, Function.update_of_ne (Ne.symm hf), hf]
        omega
  · rcases taskFdSlotTake_cases t fd with ⟨heq, -⟩ | ⟨g, hfd, hg, heq⟩
    · rw [heq]
      exact h
    rw [heq]
    have hsome : t.fds[fd].file = some g := by rw [← slot_eq_getElem hfd]; exact hg
    simp only [FdInfo.held, countP_set_held t.fds hfd, hsome]
    simp only [FdInfo.held] at h
    by_cases hf : g = f
    · subst hf
      simp [bump, FdEntry.empty]
      omega
    · simp [bump, Function.update_of_ne (Ne.symm hf), hf, FdEntry.empty]
      omega
  · have hcount : (taskFdInfoExpand env t n).1.held f = t.held f := by
      unfold taskFdInfoExpand
      split_ifs <;> simp [FdInfo.held, List.countP_append, List.countP_replicate, FdEntry.empty]
    have hrefs : (taskFdInfoExpand env t n).1.fdRefs = t.fdRefs := by
      unfold taskFdInfoExpand
      split_ifs <;> rfl
    rw [hcount, hrefs]
    exact h
  · have hmap : (setCloexecRange t.fds lo hi).map FdEntry.file = t.fds.map FdEntry.file := by
      apply List.ext_getElem?
      intro k
      simp only [List.getElem?_map, setCloexecRange, List.getElem?_mapIdx, Option.map_map]
      congr 1
      funext e
      simp only [Function.comp]
      split <;> rfl
    have hcount : (setCloexecRange t.fds lo hi).countP (fun e => e.file == some f) = t.held f := by
      have := congrArg (List.countP (· == some f)) hmap
      simp only [List.countP_map] at this
      exact this
    show t.fdRefs f - (setCloexecRange t.fds lo hi).countP _ = c
    rw [hcount]
    exact h

end FdRefs

theorem fdRun_fdRefs (t : FdInfo) (ops : List (FdEnv × Nat × FdOp)) (f : Nat) :
    (fdRun t ops).fdRefs f - (fdRun t ops).held f = t.fdRefs f - t.held f :=
  Closed.fdRun (fun c _ => fdRefs_closed c.1 f _) rfl

/-! ## The lowest free slot -/

/-- `i` is the lowest empty slot from `lo` on below `rlim`; past the table every slot is empty -/
def IsLowestFree (t : FdInfo) (lo rlim i : Nat) : Prop :=
  lo ≤ i ∧ i < rlim ∧ (t.slot i).file = none ∧ ∀ k, lo ≤ k → k < i → (t.slot k).file.isSome

section Lowest

variable {env : FdEnv} {rlim : Nat} {t : FdInfo}

end Lowest

/-! ## `close_range` -/

section CloseRange

variable {env : FdEnv} {t : FdInfo}

/-- a take empties its slot; an empty slot, without flags, stays as it is -/
theorem TableOk.take_slot {isSignalfd : Nat → Bool} (hok : TableOk isSignalfd t) (fd k : Nat) :
    (taskFdSlotTake t fd).1.slot k = if k = fd then FdEntry.empty else t.slot k := by
  rcases taskFdSlotTake_cases t fd with ⟨heq, hfree⟩ | ⟨f, hfd, -, heq⟩
  · rw [heq]
    split
    · rename_i hk
      subst hk
      have hflags := hok.empty_flags k hfree
      cases hs : t.slot k with
      | mk file fl =>
        rw [hs] at hfree hflags
        simp only at hfree hflags
        rw [hfree, hflags]
        rfl
    · rfl
  · rw [heq]
    change (t.fds.set fd FdEntry.empty).getD k FdEntry.empty = _
    rw [getD_set]
    by_cases hk : k = fd <;> simp [hk, hfd, FdInfo.slot]

theorem TableOk.takeRange_slot {isSignalfd : Nat → Bool} (hok : TableOk isSignalfd t) (lo n k : Nat) :
    (takeRange t lo n).1.slot k = if lo ≤ k ∧ k < lo + n then FdEntry.empty else t.slot k := by
  induction n generalizing t lo with
  | zero => simp [takeRange]
  | succ n ih =>
    simp only [takeRange]
    rw [ih (hok.take lo) (lo + 1), hok.take_slot]
    by_cases hk : k = lo
    · simp [hk]
    · by_cases hr : lo + 1 ≤ k ∧ k < lo + 1 + n
      · rw [if_pos hr, if_pos (by omega)]
      · rw [if_neg hr, if_neg hk, if_neg (by omega)]

/-- A `close_range` that returns 0 empties exactly the taken slots of `[fd, maxfd]`, or with
`CLOSE_RANGE_CLOEXEC` sets `FD_CLOEXEC` on exactly them; every other slot is left. -/
theorem sysCloseRange_slots (hok : TableOk env.isSignalfd t) (fd maxfd : Nat) (flags : UInt64)
    (h : (sysCloseRange env t fd maxfd flags).2 = 0) (k : Nat) :
    (sysCloseRange env t fd maxfd flags).1.slot k =
      if fd ≤ k ∧ k ≤ maxfd ∧ (t.slot k).file.isSome then
        (if flags &&& CLOSE_RANGE_CLOEXEC ≠ 0 then { t.slot k with flags := (t.slot k).flags ||| FD_CLOEXEC }
         else FdEntry.empty)
      else t.slot k := by
  have hpast : ∀ k, t.fds.length ≤ k → (t.slot k).file.isSome = false := fun k hk => by
    rw [slot_of_ge hk]
    rfl
  have h1 : ¬ flags &&& ~~~(CLOSE_RANGE_UNSHARE ||| CLOSE_RANGE_CLOEXEC) ≠ 0 := by
    intro h1
    simp [sysCloseRange, h1, EINVAL] at h
  have h2 : ¬ fd > maxfd := by
    intro h2
    simp [sysCloseRange, h1, h2, EINVAL] at h
  unfold sysCloseRange
  rw [if_neg h1, if_neg h2]
  split
  · rename_i hge
    rw [if_neg (by intro hk; simp [hpast k (by omega)] at hk)]
  rename_i hlt
  dsimp only
  split
  · rename_i hcl
    change (setCloexecRange t.fds fd _).getD k FdEntry.empty = _
    rw [setCloexecRange_getD]
    by_cases hk : fd ≤ k ∧ k ≤ maxfd ∧ (t.slot k).file.isSome
    · have hkl : k < t.fds.length := by
        by_contra hge
        simp [hpast k (by omega)] at hk
      rw [if_pos ⟨hk.1, by omega, hk.2.2⟩, if_pos hk]
      rfl
    · rw [if_neg hk, if_neg (by intro h'; exact hk ⟨h'.1, by omega, h'.2.2⟩)]
      rfl
  rename_i hcl
  have h3 : ¬ (!env.closeListOk) = true := by
    intro h3
    simp [sysCloseRange, h1, h2, hlt, hcl, h3, ENOMEM] at h
  rw [if_neg h3]
  change (takeRange t fd _).1.slot k = _
  rw [hok.takeRange_slot]
  by_cases hk : fd ≤ k ∧ k ≤ maxfd ∧ (t.slot k).file.isSome
  · have hkl : k < t.fds.length := by
      by_contra hge
      simp [hpast k (by omega)] at hk
    rw [if_pos ⟨hk.1, by omega⟩, if_pos hk]
  · rw [if_neg hk]
    split
    · rename_i hin
      have hfree : (t.slot k).file = none := by
        by_contra hsome
        exact hk ⟨hin.1, by omega, by simpa [Option.ne_none_iff_isSome] using hsome⟩
      have hflags := hok.empty_flags k hfree
      cases hs : t.slot k with
      | mk file fl =>
        rw [hs] at hfree hflags
        simp only at hfree hflags
        rw [hfree, hflags]
        rfl
    · rfl

/-- close_range over all four slots after file 7 went to slot 0 empties slot 0 -/
theorem sysCloseRange_slots_installed :
    (sysCloseRange plainEnv (fdStep plainEnv 4 fourEmpty (.install 7 0 0)).1 0 3 0).1.slot 0 = .empty :=
  (sysCloseRange_slots (fdStep_tableOk (fourEmpty_ok _) _) 0 3 0 (by decide) 0).trans (by decide)

end CloseRange

/-! ## Clone -/

section Clone

variable {env : FdEnv}

end Clone

/-! ## Where the duplications part from the contract -/

section Divergence

variable {env : FdEnv} {rlim : Nat} {t : FdInfo}

/-- `F_DUPFD` from a start past the end of the table, below `RLIMIT_NOFILE`: the scan does not run, so it stops
at the start and not at the limit, the table is not grown, and the install past its end fails. The call returns
`-ENOMEM`, while the start is the lowest free slot. -/
theorem dupToFreeSlot_beyond_table {fd start f : Nat} (hok : TableOk env.isSignalfd t) (hfd : fd < t.fds.length)
    (hf : (t.slot fd).file = some f) (hstart : t.fds.length < start) (hlim : start < rlim) (cloexec : Bool) :
    dupToFreeSlot env rlim t fd start cloexec = (t, -ENOMEM) ∧ IsLowestFree t start rlim start := by
  have hscan : scanFree t (max start t.nextFd) (min t.fds.length rlim) = start := by
    have hmax : max start t.nextFd = start := max_eq_left (by have := hok.next_le; omega)
    have hnone : firstFreeIn t start t.fds.length = none := by
      simp [firstFreeIn, Nat.sub_eq_zero_of_le hstart.le]
    rw [hmax, min_eq_left (by omega), scanFree, hnone]
    simp [hstart.le]
  have hgrow : dupGrow env rlim t start start = some (t, start, t.fds.length) := by
    unfold dupGrow
    rw [if_neg (by omega), min_eq_left (by omega)]
  have hins : taskFdSlotInstall env t start f (if cloexec then FD_CLOEXEC else 0) = (t, -EINVAL) := by
    unfold taskFdSlotInstall
    rw [if_pos (by omega)]
  refine ⟨?_, le_rfl, hlim, by rw [slot_of_ge hstart.le]; rfl, fun k hk hki => absurd hki (by omega)⟩
  unfold dupToFreeSlot
  rw [if_neg (by omega), if_neg (by omega), if_neg (by omega)]
  simp only [hf, hscan, hgrow, if_neg (Nat.ne_of_gt hstart), hins]
  simp [EINVAL]

end Divergence

/-- the table of a new task with file 0 open in slot 0: `FD_TABLE_INITIAL_SIZE` slots, and one reference of each
kind for the file -/
def oneFileTable : FdInfo :=
  ⟨⟨some 0, 0⟩ :: List.replicate (FD_TABLE_INITIAL_SIZE - 1) FdEntry.empty, 1, [], fun _ => 1, fun _ => 1⟩

/-- no signalfd file, and every allocation succeeds -/
def allocOk : FdEnv := ⟨fun _ => false, true, true, true⟩

theorem oneFileTable_tableOk : TableOk allocOk.isSignalfd oneFileTable := by
  have hslot : ∀ k, oneFileTable.slot (k + 1) = FdEntry.empty := fun k => by
    simp only [oneFileTable, FdInfo.slot, List.getD_eq_getElem?_getD, List.getElem?_cons_succ, List.getElem?_replicate]
    split <;> rfl
  refine ⟨by decide, fun k hk => ?_, fun _ => ?_, List.nodup_nil, fun fd f => ?_, fun k hk => ?_⟩
  · have hk0 : k = 0 := by simpa [oneFileTable] using hk
    subst hk0
    rfl
  · exact congrArg FdEntry.file (hslot 0)
  · simp [allocOk, oneFileTable]
  · cases k with
    | zero => simp [oneFileTable, FdInfo.slot] at hk
    | succ k => rw [hslot k]; rfl

/-- `fcntl(0, F_DUPFD, 100)` in a new task, with every allocation succeeding: slot 100 is free and below the
default `RLIMIT_NOFILE`, but the call returns `-ENOMEM` and changes nothing, because the table has 64 slots. -/
theorem dupfd_past_table :
    dupToFreeSlot allocOk DEFAULT_NOFILE_LIMIT oneFileTable 0 100 false = (oneFileTable, -ENOMEM) ∧
      IsLowestFree oneFileTable 100 DEFAULT_NOFILE_LIMIT 100 :=
  dupToFreeSlot_beyond_table oneFileTable_tableOk (by decide) rfl (by decide) (by decide) false

end Naos.FdTable
