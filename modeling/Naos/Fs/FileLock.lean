/-
Record locks, `fcntl` `F_SETLK`/`F_SETLKW`/`F_GETLK` and their OFD forms, in `fs/syscall/generic.c`, and their
release when a descriptor closes, in `fs/vfs/vfs_file.c`.

An inode keeps its locks in one list. A lock covers `[start, end)`, with `end = UINT64_MAX` standing for the end of
the file and beyond; its owner is the process's tgid for a POSIX lock and the open file for an OFD lock. A request
from an owner first looks for a conflicting lock, a lock of another owner overlapping its range with either lock a
write lock; then it unlocks its own range (trimming, cutting or splitting its own locks), merges its own locks of the
same type that overlap or touch the range, and appends the merged lock.

The abstract side is, per owner, the type of lock it holds at each byte (`Holds`, and `typeAt` with `F_UNLCK` for
none).

Results:
- `unlockOwnerRange_holds`: an unlock takes exactly the range away from the owner and leaves the other owners;
- `coalesceLoop_holds`: merging the owner's locks into the new one changes nothing the locks hold;
- `lockStep_locksOk`, `lockRun_locksOk`: every call keeps, at every byte, one type per owner, and two owners only
  with read locks;
- `fileLockGetlk_spec`: `F_GETLK` reports `F_UNLCK` exactly when there is no conflict, and else one conflicting lock;
- `setlkw_signal_returns_zero`: an `F_SETLKW` that waits and sees a signal returns 0 without the lock.
-/
import Mathlib

namespace Naos.Locks

def EAGAIN : Int := 11
def ENOMEM : Int := 12
def EINVAL : Int := 22
def EDEADLK : Int := 35
def SEEK_SET : Nat := 0
def SEEK_CUR : Nat := 1
def SEEK_END : Nat := 2
def UINT64_MAX : Nat := 2 ^ 64 - 1
def INT64_MAX : Int := 2 ^ 63 - 1
def INT64_MIN : Int := -2 ^ 63

/-! ## Locks -/

/-- `F_RDLCK`, `F_WRLCK`, `F_UNLCK` -/
inductive LockType
  | rdlck
  | wrlck
  | unlck
  deriving DecidableEq, Repr

/-- `vfs_file_lock_t`: the range `[start, stop)` (`stop` is the source's `end`), the owner, the pid reported to
`F_GETLK`, the type and whether it is an OFD lock -/
structure FileLock where
  start : Nat
  stop : Nat
  owner : Nat
  pid : Int
  type : LockType
  ofd : Bool
  deriving DecidableEq, Repr

/-- `flock_t`, as user space passes it -/
structure Flock where
  type : LockType
  whence : Nat
  start : Int
  len : Int
  pid : Int
  deriving DecidableEq, Repr

/-- `file_lock_ranges_overlap`, with `UINT64_MAX` for an open end -/
def fileLockRangesOverlap (start1 end1 start2 end2 : Nat) : Bool :=
  if end1 ≠ UINT64_MAX ∧ end1 ≤ start2 then false
  else if end2 ≠ UINT64_MAX ∧ end2 ≤ start1 then false
  else true

/-- `file_lock_ranges_touch_or_overlap` -/
def fileLockRangesTouchOrOverlap (start1 end1 start2 end2 : Nat) : Bool :=
  if fileLockRangesOverlap start1 end1 start2 end2 then true
  else if end1 ≠ UINT64_MAX ∧ end1 = start2 then true
  else end2 ≠ UINT64_MAX ∧ end2 = start1

/-- `(int64_t)` of a 64-bit value -/
def toInt64 (n : Nat) : Int := if n % 2 ^ 64 < 2 ^ 63 then (n % 2 ^ 64 : Nat) else ((n % 2 ^ 64 : Nat) : Int) - 2 ^ 64

/-- `file_lock_normalize`: the range a request names, from its base, start and length; a length of 0 reaches the
end -/
def fileLockNormalize (fpos isize : Nat) (lock : Flock) : Except Int (Nat × Nat) :=
  if lock.len < 0 then .error (-EINVAL)
  else
    let base : Option Int :=
      if lock.whence = SEEK_SET then some 0
      else if lock.whence = SEEK_CUR then some (toInt64 fpos)
      else if lock.whence = SEEK_END then some (toInt64 isize)
      else none
    match base with
    | none => .error (-EINVAL)
    | some base =>
      if (lock.start > 0 ∧ base > INT64_MAX - lock.start) ∨ (lock.start < 0 ∧ base < INT64_MIN - lock.start) then
        .error (-EINVAL)
      else if base + lock.start < 0 then .error (-EINVAL)
      else
        let start := (base + lock.start).toNat
        if lock.len > 0 then
          if lock.len.toNat > UINT64_MAX - start then .error (-EINVAL)
          else if start + lock.len.toNat ≤ start then .error (-EINVAL)
          else .ok (start, start + lock.len.toNat)
        else .ok (start, UINT64_MAX)

/-- `file_lock_same_owner` -/
def fileLockSameOwner (lock : FileLock) (owner : Nat) (ofd : Bool) : Bool := lock.ofd == ofd && lock.owner == owner

/-- the test of `file_lock_find_conflict` on one lock -/
def conflicts (lock : FileLock) (start stop : Nat) (type : LockType) (owner : Nat) (ofd : Bool) : Bool :=
  !fileLockSameOwner lock owner ofd && fileLockRangesOverlap lock.start lock.stop start stop &&
    (lock.type == .wrlck || type == .wrlck)

/-- `file_lock_find_conflict`: the first lock of another owner overlapping the range, with either a write lock -/
def fileLockFindConflict (locks : List FileLock) (start stop : Nat) (type : LockType) (owner : Nat) (ofd : Bool) :
    Option FileLock :=
  locks.find? fun l => conflicts l start stop type owner ofd

/-- what `file_lock_unlock_owner_range` does to one lock: the pieces it keeps in place, and the piece it appends
when it splits the lock -/
def trimLock (owner : Nat) (ofd : Bool) (start stop : Nat) (lock : FileLock) : List FileLock × Option FileLock :=
  if !fileLockSameOwner lock owner ofd then ([lock], none)
  else if !fileLockRangesOverlap lock.start lock.stop start stop then ([lock], none)
  else if start ≤ lock.start ∧ (stop = UINT64_MAX ∨ stop ≥ lock.stop) then ([], none)
  else if start ≤ lock.start then ([{ lock with start := stop }], none)
  else if stop = UINT64_MAX ∨ stop ≥ lock.stop then ([{ lock with stop := start }], none)
  else ([{ lock with stop := start }], some { lock with start := stop })

/-- the loop of `file_lock_unlock_owner_range`: the locks in place and the pieces appended, in order, and whether
every split found its memory; on a failed split the loop stops with the rest of the list as it was. The pieces
appended start at the end of the range and so are passed over when the loop reaches them. -/
def unlockLoop (splitOk : Bool) (owner : Nat) (ofd : Bool) (start stop : Nat) :
    List FileLock → List FileLock × List FileLock × Bool
  | [] => ([], [], true)
  | l :: ls =>
    match trimLock owner ofd start stop l with
    | (kept, none) =>
      let r := unlockLoop splitOk owner ofd start stop ls
      (kept ++ r.1, r.2.1, r.2.2)
    | (kept, some piece) =>
      if !splitOk then (l :: ls, [], false)
      else
        let r := unlockLoop splitOk owner ofd start stop ls
        (kept ++ r.1, piece :: r.2.1, r.2.2)

/-- `file_lock_unlock_owner_range`: the list afterwards and the return value -/
def fileLockUnlockOwnerRange (splitOk : Bool) (locks : List FileLock) (owner : Nat) (ofd : Bool) (start stop : Nat) :
    List FileLock × Int :=
  let r := unlockLoop splitOk owner ofd start stop locks
  (r.1 ++ r.2.1, if r.2.2 then 0 else -ENOMEM)

/-- the merge loop of `file_lock_setlk`: the owner's locks of the type that overlap or touch the merged range are
deleted and the range widened over them; the locks left, and the merged range -/
def coalesceLoop (owner : Nat) (ofd : Bool) (type : LockType) :
    List FileLock → Nat → Nat → List FileLock × Nat × Nat
  | [], ms, me => ([], ms, me)
  | l :: ls, ms, me =>
    if fileLockSameOwner l owner ofd ∧ l.type = type ∧ fileLockRangesTouchOrOverlap l.start l.stop ms me then
      coalesceLoop owner ofd type ls (min l.start ms) (max l.stop me)
    else
      let r := coalesceLoop owner ofd type ls ms me
      (l :: r.1, r.2)

/-- what the lock calls do not decide: whether `calloc` succeeds for a split piece and for the new lock, what
`file_lock_would_deadlock` finds on the waiters of other tasks, and whether a signal is deliverable -/
structure LockEnv where
  splitOk : Bool
  newOk : Bool
  deadlock : Bool
  signal : Bool

/-- what `file_lock_setlk` does when it finds no conflict: unlock the owner's range, merge the owner's locks of the
type into it and append the merged lock -/
def setlkGrant (env : LockEnv) (locks : List FileLock) (owner tgid : Nat) (ofd : Bool) (type : LockType)
    (start stop : Nat) : List FileLock × Int :=
  let u := fileLockUnlockOwnerRange env.splitOk locks owner ofd start stop
  if u.2 < 0 then u
  else
    let m := coalesceLoop owner ofd type u.1 start stop
    if !env.newOk then (m.1, -ENOMEM)
    else (m.1 ++ [⟨m.2.1, m.2.2, owner, tgid, type, ofd⟩], 0)

/-- one pass of the loop of `file_lock_setlk` for the task with tgid `tgid` through the open file `fileId`: the list
and the return value, or none when the task sleeps and tries again -/
def fileLockSetlk (env : LockEnv) (locks : List FileLock) (fpos isize tgid fileId : Nat) (req : Flock)
    (wait ofd : Bool) : Option (List FileLock × Int) :=
  match fileLockNormalize fpos isize req with
  | .error e => some (locks, e)
  | .ok (start, stop) =>
    if ofd ∧ req.pid ≠ 0 then some (locks, -EINVAL)
    else
      let owner := if ofd then fileId else tgid
      if req.type = .unlck then some (fileLockUnlockOwnerRange env.splitOk locks owner ofd start stop)
      else
        match fileLockFindConflict locks start stop req.type owner ofd with
        | none => some (setlkGrant env locks owner tgid ofd req.type start stop)
        | some _ =>
          if !wait then some (locks, -EAGAIN)
          else if env.deadlock then some (locks, -EDEADLK)
          -- a signal ends the wait with `ret`, which normalization left at 0
          else if env.signal then some (locks, 0)
          else none

/-- `file_lock_getlk`: the `flock_t` written back, or the error -/
def fileLockGetlk (locks : List FileLock) (fpos isize tgid fileId : Nat) (req : Flock) (ofd : Bool) : Except Int Flock :=
  if req.type ≠ .rdlck ∧ req.type ≠ .wrlck then .error (-EINVAL)
  else if ofd ∧ req.pid ≠ 0 then .error (-EINVAL)
  else
    match fileLockNormalize fpos isize req with
    | .error e => .error e
    | .ok (start, stop) =>
      let owner := if ofd then fileId else tgid
      match fileLockFindConflict locks start stop req.type owner ofd with
      | none => .ok { req with type := .unlck, pid := 0 }
      | some c =>
        .ok ⟨c.type, SEEK_SET, toInt64 c.start, if c.stop = UINT64_MAX then 0 else toInt64 (c.stop - c.start),
          if c.ofd then -1 else c.pid⟩

/-- the lock release of `vfs_close_file_for_task`: the POSIX locks of the closing process go -/
def vfsCloseFileForTask (locks : List FileLock) (pid : Int) : List FileLock :=
  locks.filter fun l => l.ofd || l.pid != pid

/-- the lock release when an open file is freed: its OFD locks go -/
def vfsFileReleaseLocks (locks : List FileLock) (fileId : Nat) : List FileLock :=
  locks.filter fun l => !l.ofd || l.owner != fileId

/-! ## Calls -/

/-- a call on the locks of one inode -/
inductive LockOp
  | setlk (env : LockEnv) (fpos isize tgid fileId : Nat) (req : Flock) (wait ofd : Bool)
  | close (pid : Int)
  | release (fileId : Nat)

/-- the locks after a call; a request that sleeps leaves them -/
def lockStep (locks : List FileLock) : LockOp → List FileLock
  | .setlk env fpos isize tgid fileId req wait ofd =>
    match fileLockSetlk env locks fpos isize tgid fileId req wait ofd with
    | some r => r.1
    | none => locks
  | .close pid => vfsCloseFileForTask locks pid
  | .release fileId => vfsFileReleaseLocks locks fileId

def lockRun (locks : List FileLock) : List LockOp → List FileLock
  | [] => locks
  | op :: ops => lockRun (lockStep locks op) ops

/-! ## What the locks hold -/

/-- byte `x` lies in `[start, stop)`, `UINT64_MAX` standing for no end -/
def InRange (start stop x : Nat) : Prop := start ≤ x ∧ (stop = UINT64_MAX ∨ x < stop)

instance (start stop x : Nat) : Decidable (InRange start stop x) := inferInstanceAs (Decidable (_ ∧ _))

/-- the owner of a lock: its number, and whether it is an open file -/
def FileLock.key (l : FileLock) : Nat × Bool := (l.owner, l.ofd)

def FileLock.covers (l : FileLock) (x : Nat) : Prop := InRange l.start l.stop x

instance (l : FileLock) (x : Nat) : Decidable (l.covers x) := inferInstanceAs (Decidable (InRange _ _ _))

/-- a lock as the calls make them: a nonempty range within 64 bits -/
def FileLock.Wf (l : FileLock) : Prop := l.start < l.stop ∧ l.stop ≤ UINT64_MAX

/-- owner `k` holds a lock of type `t` at byte `x` -/
def Holds (locks : List FileLock) (k : Nat × Bool) (x : Nat) (t : LockType) : Prop :=
  ∃ l ∈ locks, l.key = k ∧ l.covers x ∧ l.type = t

/-- at every byte one type per owner, and two owners only with read locks -/
def MapOk (locks : List FileLock) : Prop :=
  ∀ x k₁ t₁ k₂ t₂, Holds locks k₁ x t₁ → Holds locks k₂ x t₂ →
    (k₁ = k₂ → t₁ = t₂) ∧ (k₁ ≠ k₂ → t₁ = .rdlck ∧ t₂ = .rdlck)

/-- the type owner `k` has at byte `x`, `F_UNLCK` for none: the type of the first of its locks over the byte -/
def typeAt (locks : List FileLock) (k : Nat × Bool) (x : Nat) : LockType :=
  match locks.find? fun l => decide (l.key = k) && decide (l.covers x) with
  | some l => l.type
  | none => .unlck

/-- another owner holds a lock at a byte of the range, and the lock or the request is a write lock -/
def Conflict (locks : List FileLock) (start stop : Nat) (type : LockType) (k : Nat × Bool) : Prop :=
  ∃ k' x t, k' ≠ k ∧ InRange start stop x ∧ Holds locks k' x t ∧ (t = .wrlck ∨ type = .wrlck)

/-- a lock as the calls make them: a nonempty range within 64 bits, a read or a write lock, and for a POSIX lock
the tgid of its owner as its pid -/
structure FileLock.Ok (l : FileLock) : Prop where
  wf : l.Wf
  locked : l.type ≠ .unlck
  pid : l.ofd = false → l.pid = l.owner

/-- what the list of an inode keeps -/
structure LocksOk (locks : List FileLock) : Prop where
  each : ∀ l ∈ locks, l.Ok
  map : MapOk locks

section Ranges

@[simp] theorem holds_nil (k : Nat × Bool) (x : Nat) (t : LockType) : Holds [] k x t ↔ False := by simp [Holds]

@[simp] theorem holds_append (a b : List FileLock) (k : Nat × Bool) (x : Nat) (t : LockType) :
    Holds (a ++ b) k x t ↔ Holds a k x t ∨ Holds b k x t := by
  simp only [Holds, List.mem_append]
  constructor
  · rintro ⟨l, hl | hl, h⟩
    · exact .inl ⟨l, hl, h⟩
    · exact .inr ⟨l, hl, h⟩
  · rintro (⟨l, hl, h⟩ | ⟨l, hl, h⟩)
    · exact ⟨l, .inl hl, h⟩
    · exact ⟨l, .inr hl, h⟩

@[simp] theorem holds_cons (l : FileLock) (ls : List FileLock) (k : Nat × Bool) (x : Nat) (t : LockType) :
    Holds (l :: ls) k x t ↔ (l.key = k ∧ l.covers x ∧ l.type = t) ∨ Holds ls k x t := by
  simp [Holds]

theorem fileLockSameOwner_iff (l : FileLock) (owner : Nat) (ofd : Bool) :
    fileLockSameOwner l owner ofd = true ↔ l.key = (owner, ofd) := by
  simp [fileLockSameOwner, FileLock.key, and_comm]

theorem fileLockRangesOverlap_iff (s₁ e₁ s₂ e₂ : Nat) :
    fileLockRangesOverlap s₁ e₁ s₂ e₂ = true ↔ ¬ (e₁ ≠ UINT64_MAX ∧ e₁ ≤ s₂) ∧ ¬ (e₂ ≠ UINT64_MAX ∧ e₂ ≤ s₁) := by
  unfold fileLockRangesOverlap
  split_ifs <;> simp_all

theorem fileLockRangesTouchOrOverlap_iff (s₁ e₁ s₂ e₂ : Nat) :
    fileLockRangesTouchOrOverlap s₁ e₁ s₂ e₂ = true ↔
      fileLockRangesOverlap s₁ e₁ s₂ e₂ = true ∨ (e₁ ≠ UINT64_MAX ∧ e₁ = s₂) ∨ (e₂ ≠ UINT64_MAX ∧ e₂ = s₁) := by
  unfold fileLockRangesTouchOrOverlap
  cases hov : fileLockRangesOverlap s₁ e₁ s₂ e₂
  · simp only [Bool.false_eq_true, if_false, false_or]
    split_ifs with hc
    · exact ⟨fun _ => .inl hc, fun _ => rfl⟩
    · simp only [hc, false_or, decide_eq_true_eq]
  · simp

/-- two ranges that share a byte overlap -/
theorem fileLockRangesOverlap_of_inRange {s₁ e₁ s₂ e₂ x : Nat} (h₁ : InRange s₁ e₁ x) (h₂ : InRange s₂ e₂ x) :
    fileLockRangesOverlap s₁ e₁ s₂ e₂ = true := by
  unfold InRange at h₁ h₂
  unfold fileLockRangesOverlap
  rw [if_neg (by omega), if_neg (by omega)]

/-- two nonempty ranges that overlap share a byte: the larger start -/
theorem exists_inRange_of_overlap {s₁ e₁ s₂ e₂ : Nat} (h₁ : s₁ < e₁) (h₂ : s₂ < e₂)
    (h : fileLockRangesOverlap s₁ e₁ s₂ e₂ = true) : ∃ x, InRange s₁ e₁ x ∧ InRange s₂ e₂ x := by
  unfold fileLockRangesOverlap at h
  split_ifs at h with ha hb
  refine ⟨max s₁ s₂, ⟨le_max_left _ _, ?_⟩, ⟨le_max_right _ _, ?_⟩⟩ <;> omega

/-- two nonempty ranges that overlap or touch make one range: the smaller start to the larger end -/
theorem inRange_union {s₁ e₁ s₂ e₂ : Nat} (h₁ : s₁ < e₁) (he₁ : e₁ ≤ UINT64_MAX) (h₂ : s₂ < e₂)
    (he₂ : e₂ ≤ UINT64_MAX) (h : fileLockRangesTouchOrOverlap s₁ e₁ s₂ e₂ = true) (x : Nat) :
    InRange (min s₁ s₂) (max e₁ e₂) x ↔ InRange s₁ e₁ x ∨ InRange s₂ e₂ x := by
  have ht : ¬ (e₁ ≠ UINT64_MAX ∧ e₁ < s₂) ∧ ¬ (e₂ ≠ UINT64_MAX ∧ e₂ < s₁) := by
    rw [fileLockRangesTouchOrOverlap_iff, fileLockRangesOverlap_iff] at h
    omega
  unfold InRange
  unfold UINT64_MAX at *
  constructor
  · intro hx
    rcases Nat.le_total s₁ s₂ with hs | hs <;> rcases Nat.le_total e₁ e₂ with he | he <;>
      simp only [min_eq_left hs, min_eq_right hs, max_eq_left he, max_eq_right he] at hx <;> omega
  · intro hx
    omega

theorem toInt64_le (n : Nat) : toInt64 n ≤ INT64_MAX := by
  unfold toInt64 INT64_MAX
  split <;> omega

/-- a normalized range is nonempty and within 64 bits: the base is an int64, so a range to the end starts below
it -/
theorem fileLockNormalize_ok {fpos isize start stop : Nat} {lock : Flock}
    (h : fileLockNormalize fpos isize lock = .ok (start, stop)) : start < stop ∧ stop ≤ UINT64_MAX := by
  unfold fileLockNormalize at h
  dsimp only at h
  have h0 := toInt64_le fpos
  have h1 := toInt64_le isize
  split_ifs at h <;> dsimp only at h <;> split_ifs at h <;> simp only [Except.ok.injEq, Prod.mk.injEq] at h <;>
    obtain ⟨rfl, rfl⟩ := h <;> unfold UINT64_MAX INT64_MAX INT64_MIN at * <;> omega

end Ranges

/-! ## Unlocking -/

section Unlock

variable {owner : Nat} {ofd : Bool} {start stop : Nat}

/-- the pieces of a trimmed lock keep its owner and type, and are locks as the calls make them -/
theorem trimLock_pieces (owner : Nat) (ofd : Bool) {l : FileLock} (hreq : start < stop ∧ stop ≤ UINT64_MAX) (hl : l.Wf) :
    ∀ p ∈ (trimLock owner ofd start stop l).1 ++ (trimLock owner ofd start stop l).2.toList,
      p.key = l.key ∧ p.type = l.type ∧ p.pid = l.pid ∧ p.Wf := by
  intro p hp
  have hov := fileLockRangesOverlap_iff l.start l.stop start stop
  unfold FileLock.Wf at hl ⊢
  unfold trimLock at hp
  split_ifs at hp with h1 h2 h3 h4 h5 <;>
    simp only [List.append_nil, List.nil_append, List.cons_append, Option.toList_none, Option.toList_some,
      List.mem_cons, List.not_mem_nil, or_false] at hp
  · subst hp
    exact ⟨rfl, rfl, rfl, hl⟩
  · subst hp
    exact ⟨rfl, rfl, rfl, hl⟩
  all_goals simp only [Bool.not_eq_true', Bool.not_eq_false] at h2
  all_goals have hr := hov.1 h2
  · subst hp
    exact ⟨rfl, rfl, rfl, by dsimp only; omega, hl.2⟩
  · subst hp
    exact ⟨rfl, rfl, rfl, by dsimp only; omega, by dsimp only; omega⟩
  · rcases hp with rfl | rfl
    · exact ⟨rfl, rfl, rfl, by dsimp only; omega, by dsimp only; omega⟩
    · exact ⟨rfl, rfl, rfl, by dsimp only; omega, hl.2⟩

/-- the bytes the pieces of a trimmed lock cover: the lock's, less the range when the lock is the owner's -/
theorem trimLock_covers (owner : Nat) (ofd : Bool) {l : FileLock} (hreq : start < stop ∧ stop ≤ UINT64_MAX) (hl : l.Wf) (x : Nat) :
    (∃ p ∈ (trimLock owner ofd start stop l).1 ++ (trimLock owner ofd start stop l).2.toList, p.covers x) ↔
      l.covers x ∧ ¬ (l.key = (owner, ofd) ∧ InRange start stop x) := by
  have hov := fileLockRangesOverlap_iff l.start l.stop start stop
  have hown := fileLockSameOwner_iff l owner ofd
  unfold FileLock.Wf at hl
  unfold trimLock
  split_ifs with h1 h2 h3 h4 h5
  · simp only [Bool.not_eq_true', Bool.eq_false_iff] at h1
    simp only [List.append_nil, Option.toList_none, List.mem_singleton, exists_eq_left]
    exact ⟨fun hx => ⟨hx, fun h => h1 (hown.2 h.1)⟩, fun h => h.1⟩
  · simp only [List.append_nil, Option.toList_none, List.mem_singleton, exists_eq_left]
    refine ⟨fun hx => ⟨hx, fun h => ?_⟩, fun h => h.1⟩
    have := fileLockRangesOverlap_of_inRange hx h.2
    simp_all
  all_goals
    simp only [Bool.not_eq_true', Bool.not_eq_false] at h1 h2
    have hk := hown.1 h1
    have hr := hov.1 h2
    simp only [FileLock.covers, InRange, hk, true_and, List.append_nil, List.nil_append, List.cons_append,
      Option.toList_none, Option.toList_some, List.mem_cons, List.not_mem_nil, or_false, false_and, exists_false,
      exists_eq_or_imp, exists_eq_left] at hreq ⊢
    constructor <;> intro h <;> first | exact h.elim | omega

/-- what the pieces of a trimmed lock hold: what the lock held, less the range when the owner is the request's -/
theorem trimLock_holds (owner : Nat) (ofd : Bool) {l : FileLock} (hreq : start < stop ∧ stop ≤ UINT64_MAX) (hl : l.Wf) (k : Nat × Bool)
    (x : Nat) (t : LockType) :
    Holds ((trimLock owner ofd start stop l).1 ++ (trimLock owner ofd start stop l).2.toList) k x t ↔
      (l.key = k ∧ l.covers x ∧ l.type = t) ∧ ¬ (k = (owner, ofd) ∧ InRange start stop x) := by
  have hpieces := trimLock_pieces owner ofd hreq hl
  have hcovers := trimLock_covers owner ofd hreq hl x
  constructor
  · rintro ⟨p, hp, hk, hx, ht⟩
    obtain ⟨hpk, hpt, -⟩ := hpieces p hp
    have := hcovers.1 ⟨p, hp, hx⟩
    subst hk ht
    exact ⟨⟨hpk.symm, this.1, hpt.symm⟩, by rw [hpk]; exact this.2⟩
  · rintro ⟨⟨hk, hx, ht⟩, hnot⟩
    subst hk ht
    obtain ⟨p, hp, hpx⟩ := hcovers.2 ⟨hx, hnot⟩
    obtain ⟨hpk, hpt, -⟩ := hpieces p hp
    exact ⟨p, hp, hpk, hpx, hpt⟩

/-- a piece of a lock, with the lock's owner, type and pid, is a lock as the calls make them when its range is -/
theorem FileLock.Ok.of_piece {l p : FileLock} (hl : l.Ok) (hk : p.key = l.key) (ht : p.type = l.type)
    (hp : p.pid = l.pid) (hw : p.Wf) : p.Ok := by
  simp only [FileLock.key, Prod.mk.injEq] at hk
  refine ⟨hw, ht ▸ hl.locked, fun hofd => ?_⟩
  rw [hp, hk.1]
  exact hl.pid (hk.2 ▸ hofd)

/-- the unlock loop makes locks as the calls make them -/
theorem unlockLoop_shape (splitOk : Bool) (hreq : start < stop ∧ stop ≤ UINT64_MAX) :
    ∀ ls : List FileLock, (∀ l ∈ ls, l.Ok) →
      ∀ p ∈ (unlockLoop splitOk owner ofd start stop ls).1 ++ (unlockLoop splitOk owner ofd start stop ls).2.1,
        p.Ok := by
  intro ls
  induction ls with
  | nil => simp [unlockLoop]
  | cons l ls ih =>
    intro hls p hp
    have hl := hls l List.mem_cons_self
    have hrest := ih fun l' hl' => hls l' (List.mem_cons_of_mem _ hl')
    have hpieces := trimLock_pieces owner ofd hreq hl.wf
    rcases htrim : trimLock owner ofd start stop l with ⟨kept, _ | piece⟩ <;> rw [htrim] at hpieces
    · simp only [unlockLoop, htrim, List.append_assoc, List.mem_append] at hp
      rcases hp with hp | hp
      · obtain ⟨hk, ht, hpid, hw⟩ := hpieces p (by simpa using hp)
        exact hl.of_piece hk ht hpid hw
      · exact hrest p (List.mem_append.2 hp)
    · simp only [unlockLoop, htrim] at hp
      split at hp
      · simp only [List.append_nil] at hp
        exact hls p hp
      · simp only [List.append_assoc, List.mem_append, List.mem_cons] at hp
        rcases hp with hp | hp | rfl | hp
        · obtain ⟨hk, ht, hpid, hw⟩ := hpieces p (by simp [hp])
          exact hl.of_piece hk ht hpid hw
        · exact hrest p (List.mem_append.2 (.inl hp))
        · obtain ⟨hk, ht, hpid, hw⟩ := hpieces p (by simp)
          exact hl.of_piece hk ht hpid hw
        · exact hrest p (List.mem_append.2 (.inr hp))

/-- whatever the allocations do, the unlock loop takes locks away and adds none -/
theorem unlockLoop_sub (splitOk : Bool) (hreq : start < stop ∧ stop ≤ UINT64_MAX) :
    ∀ ls : List FileLock, (∀ l ∈ ls, l.Wf) → ∀ k x t,
      Holds ((unlockLoop splitOk owner ofd start stop ls).1 ++ (unlockLoop splitOk owner ofd start stop ls).2.1)
        k x t → Holds ls k x t := by
  intro ls
  induction ls with
  | nil => simp [unlockLoop]
  | cons l ls ih =>
    intro hls k x t h
    have hl := hls l List.mem_cons_self
    have hrest := ih (fun l' hl' => hls l' (List.mem_cons_of_mem _ hl')) k x t
    have hpieces := trimLock_holds owner ofd hreq hl k x t
    rw [holds_cons]
    rcases htrim : trimLock owner ofd start stop l with ⟨kept, _ | piece⟩ <;> rw [htrim] at hpieces
    · simp only [unlockLoop, htrim, List.append_assoc, holds_append] at h
      rcases h with h | h
      · exact .inl (hpieces.1 (by simpa using h)).1
      · exact .inr (hrest (by simpa using h))
    · simp only [unlockLoop, htrim] at h
      split at h
      · simpa using h
      · simp only [List.append_assoc, holds_append, holds_cons] at h
        rcases h with h | h | h | h
        · exact .inl (hpieces.1 (by simp [h])).1
        · exact .inr (hrest (holds_append _ _ _ _ _ |>.2 (.inl h)))
        · exact .inl (hpieces.1 (by simp [h])).1
        · exact .inr (hrest (holds_append _ _ _ _ _ |>.2 (.inr h)))

/-- an unlock loop that finds the memory for every split takes exactly the range away from the owner -/
theorem unlockLoop_holds (splitOk : Bool) (hreq : start < stop ∧ stop ≤ UINT64_MAX) :
    ∀ ls : List FileLock, (∀ l ∈ ls, l.Wf) → (unlockLoop splitOk owner ofd start stop ls).2.2 = true → ∀ k x t,
      Holds ((unlockLoop splitOk owner ofd start stop ls).1 ++ (unlockLoop splitOk owner ofd start stop ls).2.1)
        k x t ↔ Holds ls k x t ∧ ¬ (k = (owner, ofd) ∧ InRange start stop x) := by
  intro ls
  induction ls with
  | nil => simp [unlockLoop]
  | cons l ls ih =>
    intro hls hok k x t
    have hl := hls l List.mem_cons_self
    have hpieces := trimLock_holds owner ofd hreq hl k x t
    rw [holds_cons]
    rcases htrim : trimLock owner ofd start stop l with ⟨kept, _ | piece⟩ <;> rw [htrim] at hpieces
    · simp only [unlockLoop, htrim] at hok ⊢
      have hrest := ih (fun l' hl' => hls l' (List.mem_cons_of_mem _ hl')) hok k x t
      simp only [Option.toList_none, List.append_nil] at hpieces
      simp only [List.append_assoc, holds_append] at hrest ⊢
      rw [hrest, hpieces, ← or_and_right]
    · simp only [unlockLoop, htrim] at hok ⊢
      split at hok
      · simp at hok
      rename_i hsplit
      rw [if_neg hsplit]
      have hrest := ih (fun l' hl' => hls l' (List.mem_cons_of_mem _ hl')) hok k x t
      simp only [Option.toList_some, holds_append, holds_cons, holds_nil, or_false] at hpieces
      simp only [List.append_assoc, holds_append, holds_cons] at hrest ⊢
      rw [← or_assoc, or_or_or_comm, hrest, hpieces, ← or_and_right]

theorem fileLockUnlockOwnerRange_shape (splitOk : Bool) (owner : Nat) (ofd : Bool) (hreq : start < stop ∧ stop ≤ UINT64_MAX)
    {locks : List FileLock} (hls : ∀ l ∈ locks, l.Ok) :
    ∀ p ∈ (fileLockUnlockOwnerRange splitOk locks owner ofd start stop).1, p.Ok :=
  unlockLoop_shape splitOk hreq locks hls

theorem fileLockUnlockOwnerRange_sub (splitOk : Bool) (owner : Nat) (ofd : Bool) (hreq : start < stop ∧ stop ≤ UINT64_MAX)
    {locks : List FileLock} (hls : ∀ l ∈ locks, l.Wf) (k : Nat × Bool) (x : Nat) (t : LockType) :
    Holds (fileLockUnlockOwnerRange splitOk locks owner ofd start stop).1 k x t → Holds locks k x t :=
  unlockLoop_sub splitOk hreq locks hls k x t

/-- an unlock that returns 0 takes exactly the range away from the owner and leaves the other owners -/
theorem unlockOwnerRange_holds (splitOk : Bool) (owner : Nat) (ofd : Bool) (hreq : start < stop ∧ stop ≤ UINT64_MAX) {locks : List FileLock}
    (hls : ∀ l ∈ locks, l.Wf) (hret : (fileLockUnlockOwnerRange splitOk locks owner ofd start stop).2 = 0)
    (k : Nat × Bool) (x : Nat) (t : LockType) :
    Holds (fileLockUnlockOwnerRange splitOk locks owner ofd start stop).1 k x t ↔
      Holds locks k x t ∧ ¬ (k = (owner, ofd) ∧ InRange start stop x) := by
  have hok : (unlockLoop splitOk owner ofd start stop locks).2.2 = true := by
    by_contra hne
    simp [fileLockUnlockOwnerRange, hne, ENOMEM] at hret
  exact unlockLoop_holds splitOk hreq locks hls hok k x t

end Unlock

/-! ## Merging -/

section Merge

variable {owner : Nat} {ofd : Bool} {type : LockType}

theorem holds_perm {a b : List FileLock} (h : a.Perm b) (k : Nat × Bool) (x : Nat) (t : LockType) :
    Holds a k x t ↔ Holds b k x t := by
  simp only [Holds, h.mem_iff]

/-- two locks of one owner and type that overlap or touch hold what the lock over both ranges holds -/
theorem holds_merge {l L : FileLock} (hl : l.Wf) (hL : L.Wf) (hkey : l.key = L.key) (htype : l.type = L.type)
    (htouch : fileLockRangesTouchOrOverlap l.start l.stop L.start L.stop = true) (k : Nat × Bool) (x : Nat)
    (t : LockType) :
    Holds [{ L with start := min l.start L.start, stop := max l.stop L.stop }] k x t ↔ Holds [l, L] k x t := by
  have hu := inRange_union hl.1 hl.2 hL.1 hL.2 htouch x
  simp only [holds_cons, holds_nil, or_false, FileLock.covers] at hu ⊢
  simp only [FileLock.key] at hkey ⊢
  rw [hu, hkey, htype]
  constructor
  · rintro ⟨hk, hx | hx, ht⟩
    · exact .inl ⟨hk, hx, ht⟩
    · exact .inr ⟨hk, hx, ht⟩
  · rintro (⟨hk, hx, ht⟩ | ⟨hk, hx, ht⟩)
    · exact ⟨hk, .inl hx, ht⟩
    · exact ⟨hk, .inr hx, ht⟩

theorem coalesceLoop_sublist : ∀ (ls : List FileLock) (ms me : Nat), List.Sublist (coalesceLoop owner ofd type ls ms me).1 ls
  | [], _, _ => by simp [coalesceLoop]
  | l :: ls, ms, me => by
    unfold coalesceLoop
    split
    · exact (coalesceLoop_sublist ls _ _).cons l
    · exact (coalesceLoop_sublist ls ms me).cons_cons l

/-- the merged range stays a range as the calls make them -/
theorem coalesceLoop_range : ∀ (ls : List FileLock) (ms me : Nat), (∀ l ∈ ls, l.Wf) → ms < me → me ≤ UINT64_MAX →
    (coalesceLoop owner ofd type ls ms me).2.1 < (coalesceLoop owner ofd type ls ms me).2.2 ∧
      (coalesceLoop owner ofd type ls ms me).2.2 ≤ UINT64_MAX
  | [], _, _, _, h₁, h₂ => ⟨h₁, h₂⟩
  | l :: ls, ms, me, hls, h₁, h₂ => by
    have hl := hls l List.mem_cons_self
    have hrest : ∀ l' ∈ ls, l'.Wf := fun l' h => hls l' (List.mem_cons_of_mem _ h)
    unfold coalesceLoop
    split
    · apply coalesceLoop_range ls _ _ hrest
      · calc min l.start ms ≤ ms := min_le_right _ _
          _ < me := h₁
          _ ≤ max l.stop me := le_max_right _ _
      · exact max_le hl.2 h₂
    · exact coalesceLoop_range ls ms me hrest h₁ h₂

/-- the merge loop with the merged lock appended holds what the list with the requested lock appended holds -/
theorem coalesceLoop_holds (pid : Int) : ∀ (ls : List FileLock) (ms me : Nat), (∀ l ∈ ls, l.Wf) → ms < me →
    me ≤ UINT64_MAX → ∀ k x t,
      Holds ((coalesceLoop owner ofd type ls ms me).1 ++
          [⟨(coalesceLoop owner ofd type ls ms me).2.1, (coalesceLoop owner ofd type ls ms me).2.2, owner, pid, type,
            ofd⟩]) k x t ↔
        Holds (ls ++ [⟨ms, me, owner, pid, type, ofd⟩]) k x t
  | [], _, _, _, _, _, _, _, _ => by simp [coalesceLoop]
  | l :: ls, ms, me, hls, h₁, h₂, k, x, t => by
    have hl := hls l List.mem_cons_self
    have hrest : ∀ l' ∈ ls, l'.Wf := fun l' h => hls l' (List.mem_cons_of_mem _ h)
    unfold coalesceLoop
    split
    · rename_i hm
      obtain ⟨hown, htype, htouch⟩ := hm
      have hwide : min l.start ms < max l.stop me := by
        calc min l.start ms ≤ ms := min_le_right _ _
          _ < me := h₁
          _ ≤ max l.stop me := le_max_right _ _
      rw [coalesceLoop_holds pid ls _ _ hrest hwide (max_le hl.2 h₂), holds_append,
        holds_merge (L := ⟨ms, me, owner, pid, type, ofd⟩) hl ⟨h₁, h₂⟩ ((fileLockSameOwner_iff _ _ _).1 hown)
          htype htouch, ← holds_append, holds_perm List.perm_middle, List.cons_append]
    · simp only [List.cons_append, holds_cons, coalesceLoop_holds pid ls ms me hrest h₁ h₂]

end Merge

/-! ## Granting -/

section Grant

variable {env : LockEnv} {locks : List FileLock} {owner tgid : Nat} {ofd : Bool} {type : LockType}
  {start stop : Nat}

theorem holds_of_subset {a b : List FileLock} (h : ∀ p ∈ a, p ∈ b) {k : Nat × Bool} {x : Nat} {t : LockType} :
    Holds a k x t → Holds b k x t := by
  rintro ⟨l, hl, hlk⟩
  exact ⟨l, h l hl, hlk⟩

theorem fileLockUnlockOwnerRange_ret (splitOk : Bool) (locks : List FileLock) (owner : Nat) (ofd : Bool)
    (start stop : Nat) :
    (fileLockUnlockOwnerRange splitOk locks owner ofd start stop).2 = 0 ∨
      (fileLockUnlockOwnerRange splitOk locks owner ofd start stop).2 = -ENOMEM := by
  unfold fileLockUnlockOwnerRange
  dsimp only
  split <;> simp

/-- a grant that returns 0 sets the owner's type on exactly the range, and leaves the rest -/
theorem setlkGrant_holds (hreq : start < stop ∧ stop ≤ UINT64_MAX) (hls : ∀ l ∈ locks, l.Ok)
    (hret : (setlkGrant env locks owner tgid ofd type start stop).2 = 0) (k : Nat × Bool) (x : Nat) (t : LockType) :
    Holds (setlkGrant env locks owner tgid ofd type start stop).1 k x t ↔
      (k = (owner, ofd) ∧ InRange start stop x ∧ t = type) ∨
        (¬ (k = (owner, ofd) ∧ InRange start stop x) ∧ Holds locks k x t) := by
  have hwf : ∀ l ∈ locks, l.Wf := fun l hl => (hls l hl).wf
  unfold setlkGrant at hret ⊢
  dsimp only at hret ⊢
  have hu0 : (fileLockUnlockOwnerRange env.splitOk locks owner ofd start stop).2 = 0 := by
    rcases fileLockUnlockOwnerRange_ret env.splitOk locks owner ofd start stop with h | h
    · exact h
    · rw [if_pos (by rw [h]; simp [ENOMEM])] at hret
      exact hret
  have hnot : ¬ (fileLockUnlockOwnerRange env.splitOk locks owner ofd start stop).2 < 0 := by simp [hu0]
  rw [if_neg hnot] at hret ⊢
  cases hnew : env.newOk
  · simp [hnew, ENOMEM] at hret
  have hunl := fileLockUnlockOwnerRange_shape env.splitOk owner ofd hreq hls
  simp only [Bool.not_true, Bool.false_eq_true, if_false]
  rw [coalesceLoop_holds tgid _ start stop (fun l hl => (hunl l hl).wf) hreq.1 hreq.2, holds_append,
    holds_cons, holds_nil, or_false, unlockOwnerRange_holds env.splitOk owner ofd hreq hwf hu0]
  simp only [FileLock.key, FileLock.covers]
  constructor
  · rintro (⟨hh, hn⟩ | ⟨hk, hx, ht⟩)
    · exact .inr ⟨hn, hh⟩
    · exact .inl ⟨hk.symm, hx, ht.symm⟩
  · rintro (⟨hk, hx, ht⟩ | ⟨hn, hh⟩)
    · exact .inr ⟨hk.symm, hx, ht.symm⟩
    · exact .inl ⟨hh, hn⟩

/-- a grant makes locks as the calls make them, when a POSIX owner is the tgid -/
theorem setlkGrant_shape (hreq : start < stop ∧ stop ≤ UINT64_MAX) (hls : ∀ l ∈ locks, l.Ok)
    (htype : type ≠ .unlck) (howner : ofd = false → owner = tgid) : ∀ p ∈ (setlkGrant env locks owner tgid ofd type start stop).1, p.Ok := by
  have hunl := fileLockUnlockOwnerRange_shape env.splitOk owner ofd hreq hls
  have hmerged : ∀ p ∈ (coalesceLoop owner ofd type
      (fileLockUnlockOwnerRange env.splitOk locks owner ofd start stop).1 start stop).1, p.Ok :=
    fun p hp => hunl p ((coalesceLoop_sublist _ _ _).subset hp)
  unfold setlkGrant
  dsimp only
  split
  · exact hunl
  split
  · exact hmerged
  intro p hp
  rcases List.mem_append.1 hp with hp | hp
  · exact hmerged p hp
  · rw [List.mem_singleton] at hp
    subst hp
    exact ⟨coalesceLoop_range _ _ _ (fun l hl => (hunl l hl).wf) hreq.1 hreq.2, htype,
      fun h => by rw [howner h]⟩

/-- a grant that fails takes locks away and adds none -/
theorem setlkGrant_sub (hreq : start < stop ∧ stop ≤ UINT64_MAX) (hls : ∀ l ∈ locks, l.Wf)
    (hret : (setlkGrant env locks owner tgid ofd type start stop).2 ≠ 0) (k : Nat × Bool) (x : Nat) (t : LockType) :
    Holds (setlkGrant env locks owner tgid ofd type start stop).1 k x t → Holds locks k x t := by
  have hunl := fileLockUnlockOwnerRange_sub env.splitOk owner ofd hreq hls k x t
  unfold setlkGrant at hret ⊢
  dsimp only at hret ⊢
  split
  · exact hunl
  rename_i hu
  rw [if_neg hu] at hret
  split
  · exact fun h => hunl (holds_of_subset (coalesceLoop_sublist _ _ _).subset h)
  · rename_i hnew
    rw [if_neg hnew] at hret
    exact absurd rfl hret

/-- the merge loop ran and the new lock failed: the owner lost the range (and the locks merged into it) -/
theorem setlkGrant_nomem (hreq : start < stop ∧ stop ≤ UINT64_MAX) (hls : ∀ l ∈ locks, l.Wf)
    (hret : (setlkGrant env locks owner tgid ofd type start stop).2 = -ENOMEM)
    (hu : (fileLockUnlockOwnerRange env.splitOk locks owner ofd start stop).2 = 0) (x : Nat) (hx : InRange start stop x)
    (t : LockType) : ¬ Holds (setlkGrant env locks owner tgid ofd type start stop).1 (owner, ofd) x t := by
  have hnot : ¬ (fileLockUnlockOwnerRange env.splitOk locks owner ofd start stop).2 < 0 := by simp [hu]
  have hunl := unlockOwnerRange_holds env.splitOk owner ofd hreq hls hu (owner, ofd) x t
  unfold setlkGrant at hret ⊢
  dsimp only at hret ⊢
  rw [if_neg hnot] at hret ⊢
  split at hret
  · rw [if_pos ‹_›]
    exact fun h => (hunl.1 (holds_of_subset (coalesceLoop_sublist _ _ _).subset h)).2 ⟨rfl, hx⟩
  · simp [ENOMEM] at hret

/-- a write lock over the owner's read lock of [0, 4) whose allocation fails: the read lock is gone -/
theorem setlkGrant_nomem_rdlck :
    (setlkGrant ⟨true, false, false, false⟩ [⟨0, 4, 5, 5, .rdlck, false⟩] 5 5 false .wrlck 0 4).2 = -ENOMEM ∧
      ¬ Holds (setlkGrant ⟨true, false, false, false⟩ [⟨0, 4, 5, 5, .rdlck, false⟩] 5 5 false .wrlck 0 4).1
        (5, false) 0 .rdlck :=
  ⟨by decide, setlkGrant_nomem (by decide) (by simp [FileLock.Wf, UINT64_MAX]) (by decide) (by decide) 0 (by decide) _⟩

end Grant

/-! ## Conflicts and the map -/

section Map

variable {locks : List FileLock} {start stop : Nat} {type : LockType} {owner : Nat} {ofd : Bool}

theorem holds_locked (hls : ∀ l ∈ locks, l.Ok) {k : Nat × Bool} {x : Nat} {t : LockType} (h : Holds locks k x t) :
    t ≠ .unlck := by
  obtain ⟨l, hl, -, -, rfl⟩ := h
  exact (hls l hl).locked

/-- the conflict test on one lock, as a statement about bytes -/
theorem conflicts_iff {l : FileLock} (hl : l.Wf) (hreq : start < stop) :
    conflicts l start stop type owner ofd = true ↔
      l.key ≠ (owner, ofd) ∧ (∃ x, l.covers x ∧ InRange start stop x) ∧ (l.type = .wrlck ∨ type = .wrlck) := by
  unfold conflicts
  simp only [Bool.and_eq_true, Bool.not_eq_true', Bool.or_eq_true, beq_iff_eq, Bool.eq_false_iff, ne_eq,
    fileLockSameOwner_iff]
  constructor
  · rintro ⟨⟨hk, hov⟩, ht⟩
    exact ⟨hk, exists_inRange_of_overlap hl.1 hreq hov, ht⟩
  · rintro ⟨hk, ⟨x, hx₁, hx₂⟩, ht⟩
    exact ⟨⟨hk, fileLockRangesOverlap_of_inRange hx₁ hx₂⟩, ht⟩

/-- the search finds a conflicting lock exactly when there is a conflict -/
theorem fileLockFindConflict_eq_none_iff (hls : ∀ l ∈ locks, l.Wf) (hreq : start < stop) :
    fileLockFindConflict locks start stop type owner ofd = none ↔ ¬ Conflict locks start stop type (owner, ofd) := by
  unfold fileLockFindConflict Conflict
  rw [List.find?_eq_none]
  constructor
  · rintro h ⟨k', x, t, hk', hx, ⟨l, hl, rfl, hlx, rfl⟩, ht⟩
    exact h l hl ((conflicts_iff (hls l hl) hreq).2 ⟨hk', ⟨x, hlx, hx⟩, ht⟩)
  · intro h l hl hc
    obtain ⟨hk', ⟨x, hlx, hx⟩, ht⟩ := (conflicts_iff (hls l hl) hreq).1 hc
    exact h ⟨l.key, x, l.type, hk', hx, ⟨l, hl, rfl, hlx, rfl⟩, ht⟩

theorem fileLockFindConflict_eq_some {c : FileLock} (h : fileLockFindConflict locks start stop type owner ofd = some c) :
    c ∈ locks ∧ conflicts c start stop type owner ofd = true := by
  unfold fileLockFindConflict at h
  have hc := List.find?_some h
  exact ⟨List.mem_of_find?_eq_some h, hc⟩

/-- without a conflict, another owner holds only read locks on the range, and the request is a read lock where it
holds one -/
theorem rdlck_of_not_conflict (hls : ∀ l ∈ locks, l.Ok) (htype : type ≠ .unlck)
    (hc : ¬ Conflict locks start stop type (owner, ofd)) {k : Nat × Bool} {x : Nat} {t : LockType}
    (h : Holds locks k x t) (hk : k ≠ (owner, ofd)) (hx : InRange start stop x) : t = .rdlck ∧ type = .rdlck := by
  have hw : ¬ (t = .wrlck ∨ type = .wrlck) := fun hw => hc ⟨k, x, t, hk, hx, h, hw⟩
  have ht := holds_locked hls h
  constructor
  · cases t <;> simp_all
  · cases type <;> simp_all

theorem MapOk.mono {a b : List FileLock} (ha : MapOk a) (h : ∀ k x t, Holds b k x t → Holds a k x t) : MapOk b :=
  fun x k₁ t₁ k₂ t₂ h₁ h₂ => ha x k₁ t₁ k₂ t₂ (h _ _ _ h₁) (h _ _ _ h₂)

/-- setting an owner's type on a range keeps one type per owner and shared read locks, when no other owner holds a
lock there that conflicts with the type -/
theorem MapOk.set {a b : List FileLock} {k₀ : Nat × Bool} (ha : MapOk a)
    (hfree : ∀ k x t, Holds a k x t → k ≠ k₀ → InRange start stop x → t = .rdlck ∧ type = .rdlck)
    (hb : ∀ k x t, Holds b k x t ↔
      (k = k₀ ∧ InRange start stop x ∧ t = type) ∨ (¬ (k = k₀ ∧ InRange start stop x) ∧ Holds a k x t)) :
    MapOk b := by
  intro x k₁ t₁ k₂ t₂ h₁ h₂
  rw [hb] at h₁ h₂
  rcases h₁ with ⟨rfl, hx, rfl⟩ | ⟨hn₁, h₁⟩ <;> rcases h₂ with ⟨rfl, hx', rfl⟩ | ⟨hn₂, h₂⟩
  · exact ⟨fun _ => rfl, fun hne => absurd rfl hne⟩
  · have hk₂ : k₂ ≠ k₁ := fun hk => hn₂ ⟨hk, hx⟩
    obtain ⟨ht₂, ht⟩ := hfree k₂ x t₂ h₂ hk₂ hx
    exact ⟨fun hk => absurd hk.symm hk₂, fun _ => ⟨ht, ht₂⟩⟩
  · have hk₁ : k₁ ≠ k₂ := fun hk => hn₁ ⟨hk, hx'⟩
    obtain ⟨ht₁, ht⟩ := hfree k₁ x t₁ h₁ hk₁ hx'
    exact ⟨fun hk => absurd hk hk₁, fun _ => ⟨ht₁, ht⟩⟩
  · exact ha x k₁ t₁ k₂ t₂ h₁ h₂

theorem LocksOk.of_sub {a b : List FileLock} (ha : LocksOk a) (hb : ∀ p ∈ b, p.Ok)
    (h : ∀ k x t, Holds b k x t → Holds a k x t) : LocksOk b :=
  ⟨hb, ha.map.mono h⟩

theorem LocksOk.of_subset {a b : List FileLock} (ha : LocksOk a) (h : ∀ p ∈ b, p ∈ a) : LocksOk b :=
  ha.of_sub (fun p hp => ha.each p (h p hp)) fun _ _ _ => holds_of_subset h

end Map

/-! ## The calls -/

section Calls

variable {env : LockEnv} {locks locks' : List FileLock} {fpos isize tgid fileId : Nat} {req : Flock}
  {wait ofd : Bool} {start stop : Nat}

theorem fileLockNormalize_error {fpos isize : Nat} {lock : Flock} {e : Int}
    (h : fileLockNormalize fpos isize lock = .error e) : e < 0 := by
  unfold fileLockNormalize at h
  dsimp only at h
  split_ifs at h <;> (try dsimp only at h) <;> (try split_ifs at h) <;>
    simp only [Except.error.injEq] at h <;> simp [← h, EINVAL]

/-- what one pass of `file_lock_setlk` can do: fail with the list as it was, unlock, grant, or meet a conflict and
leave the list, returning 0 only when it waited and saw a signal -/
theorem fileLockSetlk_cases {r : List FileLock × Int}
    (h : fileLockSetlk env locks fpos isize tgid fileId req wait ofd = some r) :
    (r.1 = locks ∧ r.2 < 0) ∨
      ∃ start stop, fileLockNormalize fpos isize req = .ok (start, stop) ∧ ¬ (ofd = true ∧ req.pid ≠ 0) ∧
        ((req.type = .unlck ∧
            r = fileLockUnlockOwnerRange env.splitOk locks (if ofd then fileId else tgid) ofd start stop) ∨
          (req.type ≠ .unlck ∧
            fileLockFindConflict locks start stop req.type (if ofd then fileId else tgid) ofd = none ∧
            r = setlkGrant env locks (if ofd then fileId else tgid) tgid ofd req.type start stop) ∨
          (req.type ≠ .unlck ∧
            (∃ c, fileLockFindConflict locks start stop req.type (if ofd then fileId else tgid) ofd = some c) ∧
            r.1 = locks ∧ (r.2 = 0 → wait = true ∧ env.signal = true))) := by
  unfold fileLockSetlk at h
  rcases hn : fileLockNormalize fpos isize req with e | ⟨start, stop⟩ <;> rw [hn] at h <;> dsimp only at h
  · cases h
    exact .inl ⟨rfl, fileLockNormalize_error hn⟩
  by_cases hpid : ofd = true ∧ req.pid ≠ 0
  · rw [if_pos hpid] at h
    cases h
    exact .inl ⟨rfl, by simp [EINVAL]⟩
  rw [if_neg hpid] at h
  refine .inr ⟨start, stop, rfl, hpid, ?_⟩
  by_cases ht : req.type = .unlck
  · rw [if_pos ht] at h
    cases h
    exact .inl ⟨ht, rfl⟩
  rw [if_neg ht] at h
  rcases hc : fileLockFindConflict locks start stop req.type (if ofd then fileId else tgid) ofd with _ | c <;>
    rw [hc] at h <;> dsimp only at h
  · cases h
    exact .inr (.inl ⟨ht, rfl, rfl⟩)
  · refine .inr (.inr ⟨ht, ⟨c, rfl⟩, ?_⟩)
    split_ifs at h with hw hd hs <;> cases h
    · simp [EAGAIN]
    · simp [EDEADLK]
    · simp_all

/-- a grant that found no conflict keeps the invariant -/
theorem setlkGrant_locksOk {owner : Nat} {type : LockType} (hok : LocksOk locks)
    (hreq : start < stop ∧ stop ≤ UINT64_MAX) (htype : type ≠ .unlck) (howner : ofd = false → owner = tgid)
    (hc : fileLockFindConflict locks start stop type owner ofd = none) :
    LocksOk (setlkGrant env locks owner tgid ofd type start stop).1 := by
  have hwf : ∀ l ∈ locks, l.Wf := fun l hl => (hok.each l hl).wf
  refine ⟨setlkGrant_shape hreq hok.each htype howner, ?_⟩
  by_cases hret : (setlkGrant env locks owner tgid ofd type start stop).2 = 0
  · have hnc := (fileLockFindConflict_eq_none_iff hwf hreq.1).1 hc
    exact hok.map.set (fun k x t h hk hx => rdlck_of_not_conflict hok.each htype hnc h hk hx)
      (setlkGrant_holds hreq hok.each hret)
  · exact hok.map.mono (setlkGrant_sub hreq hwf hret)

/-- every call keeps the invariant of the list -/
theorem lockStep_locksOk (hok : LocksOk locks) (op : LockOp) : LocksOk (lockStep locks op) := by
  have hwf : ∀ l ∈ locks, l.Wf := fun l hl => (hok.each l hl).wf
  cases op with
  | setlk env fpos isize tgid fileId req wait ofd =>
    simp only [lockStep]
    split
    · rename_i r hr
      rcases fileLockSetlk_cases hr with ⟨hr1, -⟩ | ⟨start, stop, hn, -, hcase⟩
      · rw [hr1]
        exact hok
      have hreq := fileLockNormalize_ok hn
      rcases hcase with ⟨-, rfl⟩ | ⟨ht, hc, rfl⟩ | ⟨-, -, hr1, -⟩
      · exact hok.of_sub (fileLockUnlockOwnerRange_shape _ _ _ hreq hok.each)
          (fileLockUnlockOwnerRange_sub _ _ _ hreq hwf)
      · exact setlkGrant_locksOk hok hreq ht (fun h => by simp [h]) hc
      · rw [hr1]
        exact hok
    · exact hok
  | close pid => exact hok.of_subset fun p hp => (List.mem_filter.1 hp).1
  | release fileId => exact hok.of_subset fun p hp => (List.mem_filter.1 hp).1

theorem lockRun_locksOk (hok : LocksOk locks) : ∀ ops, LocksOk (lockRun locks ops) := by
  intro ops
  induction ops generalizing locks with
  | nil => exact hok
  | cons op ops ih => exact ih (lockStep_locksOk hok op)

/-- one POSIX read lock of process 5 over [0, 4) -/
def oneRdlck : List FileLock := [⟨0, 4, 5, 5, .rdlck, false⟩]

theorem oneRdlck_ok : LocksOk oneRdlck where
  each l hl := by
    simp only [oneRdlck, List.mem_singleton] at hl
    subst hl
    exact ⟨by simp [FileLock.Wf, UINT64_MAX], by decide, fun _ => rfl⟩
  map _ _ _ _ _ := by
    rintro ⟨_, h1, rfl, -, rfl⟩ ⟨_, h2, rfl, -, rfl⟩
    simp only [oneRdlck, List.mem_singleton] at h1 h2
    subst h1 h2
    simp

theorem lockRun_locksOk_oneRdlck : LocksOk oneRdlck ∧ ∀ ops, LocksOk (lockRun oneRdlck ops) :=
  ⟨oneRdlck_ok, lockRun_locksOk oneRdlck_ok⟩

/-- an `F_SETLKW` that meets a conflict, finds no deadlock and sees a signal returns 0, the value normalization left
in `ret`, with the list as it was -/
theorem fileLockSetlk_signal (hn : fileLockNormalize fpos isize req = .ok (start, stop))
    (hpid : ¬ (ofd = true ∧ req.pid ≠ 0)) (ht : req.type ≠ .unlck) {c : FileLock}
    (hc : fileLockFindConflict locks start stop req.type (if ofd then fileId else tgid) ofd = some c)
    (hd : env.deadlock = false) (hs : env.signal = true) :
    fileLockSetlk env locks fpos isize tgid fileId req true ofd = some (locks, 0) := by
  unfold fileLockSetlk
  rw [hn]
  dsimp only
  rw [if_neg hpid, if_neg ht, hc]
  simp [hd, hs]

/-- process 1 holds a write lock over the whole file -/
def heldByOne : List FileLock := [⟨0, UINT64_MAX, 1, 1, .wrlck, false⟩]

/-- process 2 asks with `F_SETLKW` for a write lock over the whole file and a signal arrives while it waits: the
call returns 0, and process 2 holds nothing at byte 0 of the range -/
theorem setlkw_signal_returns_zero :
    fileLockSetlk ⟨true, true, false, true⟩ heldByOne 0 0 2 0 ⟨.wrlck, SEEK_SET, 0, 0, 0⟩ true false =
        some (heldByOne, 0) ∧
      typeAt heldByOne (2, false) 0 = .unlck :=
  ⟨fileLockSetlk_signal (show fileLockNormalize 0 0 ⟨.wrlck, SEEK_SET, 0, 0, 0⟩ = .ok (0, UINT64_MAX) by decide)
    (by decide) (by decide)
    (show fileLockFindConflict heldByOne 0 UINT64_MAX .wrlck 2 false = some ⟨0, UINT64_MAX, 1, 1, .wrlck, false⟩ by
      decide) rfl rfl, by decide⟩

/-- `F_GETLK` reports `F_UNLCK` exactly when there is no conflict, and else the range, type and pid of one
conflicting lock -/
theorem fileLockGetlk_spec (hok : LocksOk locks) (hn : fileLockNormalize fpos isize req = .ok (start, stop))
    (hpid : ¬ (ofd = true ∧ req.pid ≠ 0)) (ht : req.type ≠ .unlck) :
    ∃ f, fileLockGetlk locks fpos isize tgid fileId req ofd = .ok f ∧
      (f.type = .unlck ↔ ¬ Conflict locks start stop req.type (if ofd then fileId else tgid, ofd)) ∧
      (f.type ≠ .unlck → ∃ c ∈ locks,
        c.key ≠ (if ofd then fileId else tgid, ofd) ∧ (∃ x, c.covers x ∧ InRange start stop x) ∧
        (c.type = .wrlck ∨ req.type = .wrlck) ∧
        f = ⟨c.type, SEEK_SET, toInt64 c.start, if c.stop = UINT64_MAX then 0 else toInt64 (c.stop - c.start),
          if c.ofd then -1 else c.pid⟩) := by
  have hwf : ∀ l ∈ locks, l.Wf := fun l hl => (hok.each l hl).wf
  have hreq := fileLockNormalize_ok hn
  have hv : ¬ (req.type ≠ .rdlck ∧ req.type ≠ .wrlck) := by
    cases h : req.type <;> simp_all
  unfold fileLockGetlk
  rw [if_neg hv, if_neg hpid, hn]
  dsimp only
  rcases hfind : fileLockFindConflict locks start stop req.type (if ofd then fileId else tgid) ofd with _ | c
  · refine ⟨_, rfl, ⟨fun _ => (fileLockFindConflict_eq_none_iff hwf hreq.1).1 hfind, fun _ => rfl⟩, ?_⟩
    intro hne
    exact absurd rfl hne
  · obtain ⟨hmem, hconf⟩ := fileLockFindConflict_eq_some hfind
    have hc := (conflicts_iff (hwf c hmem) hreq.1).1 hconf
    refine ⟨_, rfl, ⟨fun hu => absurd hu (hok.each c hmem).locked, fun hnc => ?_⟩, fun _ => ⟨c, hmem, hc.1, hc.2.1,
      hc.2.2, rfl⟩⟩
    rw [(fileLockFindConflict_eq_none_iff hwf hreq.1).2 hnc] at hfind
    cases hfind

theorem fileLockGetlk_spec_oneRdlck : ∃ f, fileLockGetlk oneRdlck 0 0 7 0 ⟨.wrlck, SEEK_SET, 0, 4, 0⟩ false = .ok f :=
  (fileLockGetlk_spec oneRdlck_ok (by decide : fileLockNormalize 0 0 _ = .ok (0, 4)) (by simp) (by decide)).imp
    fun _ h => h.1

end Calls

end Naos.Locks
