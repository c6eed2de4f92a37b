/-
FUTEX_LOCK_PI and FUTEX_UNLOCK_PI of task/futex.c, with the user-space fast paths of the PI futex protocol beside
them.

The PI protocol keeps the owner's thread id in the futex word and takes and releases an uncontended lock in user
space: a compare-and-swap of 0 to the id, and of the id back to 0. A thread whose swap fails enters the kernel. For
that to work, a word with a queued waiter must carry FUTEX_WAITERS, so that the owner's swap back fails and the owner
enters FUTEX_UNLOCK_PI, which wakes a waiter. Here FUTEX_LOCK_PI writes the bare id when it takes the lock and
queues the caller without touching the word otherwise.

A system step is one critical section (`piStep`): a user swap, a pass of FUTEX_LOCK_PI from its retry label under
the bucket lock, or FUTEX_UNLOCK_PI under the bucket lock. A thread is idle, entering the kernel to lock, queued,
holding, or entering the kernel to unlock (`TaskAt`). A woken waiter returns from futex_wait_poll to the retry label,
and so enters the kernel to lock again. Timeouts and signals are not modelled: a queued thread leaves the queue
only when it is woken.

Results:
- `step_piOk`, `run_piOk`: every step, and so every run, keeps `PiOk`. The word is 0 or the id of the one holding
  thread, and no thread ever enters FUTEX_UNLOCK_PI, so every thread's fast-path unlock succeeds;
- `run_queued`: a queued thread stays queued along every run;
- `run_exclusive`: the lock still excludes, and the word never carries FUTEX_WAITERS;
- `pi_waiter_stranded`: after the owner took the lock in user space and a second thread queued in FUTEX_LOCK_PI,
  the word has no FUTEX_WAITERS, the owner's user-space unlock frees the lock, and the waiter stays queued forever.
-/
import Mathlib

namespace Naos.Futex

/-! ## The model -/

def FUTEX_WAITERS : Nat := 0x80000000
def FUTEX_TID_MASK : Nat := 0x3FFFFFFF
def INT32_MAX : Nat := 0x7FFFFFFF

/-- the futex word, as the `uint32_t` it is, and the threads queued on its bucket for it, oldest first -/
structure PiFutex where
  word : Nat
  queue : List Nat

/-- how a pass of FUTEX_LOCK_PI under the bucket lock ends -/
inductive LockPiPass
  | acquired
  /-- futex_enqueue_locked, and the sleep in futex_wait_poll -/
  | queued
deriving Repr, DecidableEq

/-- a pass of FUTEX_LOCK_PI from its retry label, under the bucket lock, for the thread `pid` -/
def futexLockPiLocked (f : PiFutex) (pid : Nat) : PiFutex × LockPiPass :=
  if f.word &&& INT32_MAX = 0 then ({ f with word := pid }, .acquired)
  else ({ f with queue := f.queue ++ [pid] }, .queued)

/-- how FUTEX_UNLOCK_PI ends -/
inductive UnlockPiResult
  /-- the word is 0 again, and futex_wake_locked woke the oldest waiter, if any -/
  | unlocked (woken : Option Nat)
  | eperm
deriving Repr, DecidableEq

/-- FUTEX_UNLOCK_PI under the bucket lock, for the thread `pid` -/
def futexUnlockPiLocked (f : PiFutex) (pid : Nat) : PiFutex × UnlockPiResult :=
  if f.word &&& INT32_MAX ≠ pid then (f, .eperm)
  else
    match f.queue with
    | [] => ({ f with word := 0 }, .unlocked none)
    | w :: rest => (⟨0, rest⟩, .unlocked (some w))

/-- the user-space lock of the PI protocol: compare-and-swap of 0 to the thread's id -/
def userLockPi (f : PiFutex) (tid : Nat) : PiFutex × Bool :=
  if f.word = 0 then ({ f with word := tid }, true) else (f, false)

/-- the user-space unlock of the PI protocol: compare-and-swap of the thread's id to 0 -/
def userUnlockPi (f : PiFutex) (tid : Nat) : PiFutex × Bool :=
  if f.word = tid then ({ f with word := 0 }, true) else (f, false)

/-- where a thread is in the protocol -/
inductive TaskAt
  | idle
  /-- its user-space lock failed, and it is in FUTEX_LOCK_PI, or was woken to retry it -/
  | entering
  | queued
  | holding
  /-- its user-space unlock failed, and it is in FUTEX_UNLOCK_PI -/
  | unlocking
deriving Repr, DecidableEq

/-- the futex and every thread -/
structure PiSys where
  futex : PiFutex
  task : Nat → TaskAt

/-- one critical section of a thread -/
inductive PiEvent
  | userLock (t : Nat)
  | lockPi (t : Nat)
  | userUnlock (t : Nat)
  | unlockPi (t : Nat)

/-- one step: the critical section runs when the thread is where it starts; otherwise nothing changes -/
def piStep (s : PiSys) : PiEvent → PiSys
  | .userLock t =>
    if s.task t = .idle then
      let (f, ok) := userLockPi s.futex t
      ⟨f, Function.update s.task t (if ok then .holding else .entering)⟩
    else s
  | .lockPi t =>
    if s.task t = .entering then
      let (f, r) := futexLockPiLocked s.futex t
      ⟨f, Function.update s.task t (if r = .acquired then .holding else .queued)⟩
    else s
  | .userUnlock t =>
    if s.task t = .holding then
      let (f, ok) := userUnlockPi s.futex t
      ⟨f, Function.update s.task t (if ok then .idle else .unlocking)⟩
    else s
  | .unlockPi t =>
    if s.task t = .unlocking then
      let (f, r) := futexUnlockPiLocked s.futex t
      match r with
      | .eperm => { s with task := Function.update s.task t .idle }
      | .unlocked none => ⟨f, Function.update s.task t .idle⟩
      -- the woken waiter goes back to the retry label of FUTEX_LOCK_PI
      | .unlocked (some w) => ⟨f, Function.update (Function.update s.task t .idle) w .entering⟩
    else s

def piRun (s : PiSys) : List PiEvent → PiSys
  | [] => s
  | e :: es => piRun (piStep s e) es

/-- the lock free, no thread in the protocol -/
def piInit : PiSys := ⟨⟨0, []⟩, fun _ => .idle⟩

/-! ## The invariant: the word holds at most an owner's id -/

/-- an id the word can hold: nonzero, inside FUTEX_TID_MASK -/
def ValidTid (t : Nat) : Prop := 0 < t ∧ t ≤ FUTEX_TID_MASK

/-- a step of a thread with such an id -/
def LegalEvent : PiEvent → Prop
  | .userLock t | .lockPi t | .userUnlock t | .unlockPi t => ValidTid t

/-- the word is 0 and no thread holds the lock, or it is the id of the one thread that holds it; and no thread is
in FUTEX_UNLOCK_PI -/
structure PiOk (s : PiSys) : Prop where
  word : s.futex.word = 0 ∨ ValidTid s.futex.word
  free : s.futex.word = 0 → ∀ t, s.task t ≠ .holding
  owner : ∀ t, s.task t = .holding → t = s.futex.word
  held : s.futex.word ≠ 0 → s.task s.futex.word = .holding
  noUnlock : ∀ t, s.task t ≠ .unlocking

section Steps

variable {s : PiSys} {t : Nat}

/-- an id below FUTEX_TID_MASK keeps every bit of INT32_MAX, and has no FUTEX_WAITERS -/
theorem and_int32Max {w : Nat} (h : w ≤ FUTEX_TID_MASK) : w &&& INT32_MAX = w := by
  rw [show INT32_MAX = 2 ^ 31 - 1 from rfl, Nat.and_two_pow_sub_one_eq_mod]
  unfold FUTEX_TID_MASK at h
  omega

theorem and_waiters {w : Nat} (h : w ≤ FUTEX_TID_MASK) : w &&& FUTEX_WAITERS = 0 := by
  apply Nat.eq_of_testBit_eq
  intro i
  rw [show FUTEX_WAITERS = 2 ^ 31 from rfl, Nat.testBit_and, Nat.testBit_two_pow, Nat.zero_testBit]
  by_cases hi : 31 = i
  · subst hi
    simp [Nat.testBit_lt_two_pow (show w < 2 ^ 31 by unfold FUTEX_TID_MASK at h; omega)]
  · simp [hi]

theorem PiOk.word_and (h : PiOk s) : s.futex.word &&& INT32_MAX = 0 ↔ s.futex.word = 0 := by
  rcases h.word with h0 | hv
  · simp [h0]
  · rw [and_int32Max hv.2]

/-- taking a free lock: the thread holds it and the word is its id -/
theorem PiOk.take (h : PiOk s) (hw : s.futex.word = 0) (ht : ValidTid t) (q : List Nat) :
    PiOk ⟨⟨t, q⟩, Function.update s.task t .holding⟩ := by
  refine ⟨Or.inr ht, fun h0 => absurd h0 (by have := ht.1; simp; omega), fun u hu => ?_, fun _ => by simp, ?_⟩
  · by_cases hut : u = t
    · exact hut
    · simp only [Function.update_of_ne hut] at hu
      exact absurd hu (h.free hw u)
  · intro u
    by_cases hut : u = t
    · subst hut
      simp
    · simp only [Function.update_of_ne hut]
      exact h.noUnlock u

/-- a thread that is not the owner moves to a place that is not holding: nothing else changes -/
theorem PiOk.move (h : PiOk s) (ht : s.task t ≠ .holding) (a : TaskAt) (ha : a ≠ .holding) (hau : a ≠ .unlocking)
    (q : List Nat) : PiOk ⟨⟨s.futex.word, q⟩, Function.update s.task t a⟩ := by
  have hne : ∀ u, s.futex.word ≠ 0 → u = t → u ≠ s.futex.word := fun u hw hut => by
    subst hut
    exact fun hu => ht (hu ▸ h.held hw)
  refine ⟨h.word, fun hw u => ?_, fun u hu => ?_, fun hw => ?_, fun u => ?_⟩
  · by_cases hut : u = t
    · subst hut
      simpa using ha
    · simp only [Function.update_of_ne hut]
      exact h.free hw u
  · by_cases hut : u = t
    · subst hut
      simp at hu
      exact absurd hu ha
    · simp only [Function.update_of_ne hut] at hu
      exact h.owner u hu
  · have : s.futex.word ≠ t := fun heq => hne t hw rfl heq.symm
    simp only [Function.update_of_ne this]
    exact h.held hw
  · by_cases hut : u = t
    · subst hut
      simpa using hau
    · simp only [Function.update_of_ne hut]
      exact h.noUnlock u

/-- every legal step keeps the invariant -/
theorem step_piOk (h : PiOk s) {e : PiEvent} (he : LegalEvent e) : PiOk (piStep s e) := by
  cases e with
  | userLock t =>
    by_cases hidle : s.task t = .idle
    swap
    · simp only [piStep, if_neg hidle]
      exact h
    by_cases hw : s.futex.word = 0
    · have hstep : piStep s (.userLock t) = ⟨⟨t, s.futex.queue⟩, Function.update s.task t .holding⟩ := by
        simp [piStep, hidle, userLockPi, hw]
      rw [hstep]
      exact h.take hw he s.futex.queue
    · have hstep : piStep s (.userLock t) =
          ⟨⟨s.futex.word, s.futex.queue⟩, Function.update s.task t .entering⟩ := by
        simp [piStep, hidle, userLockPi, hw]
      rw [hstep]
      exact h.move (by rw [hidle]; simp) .entering (by simp) (by simp) s.futex.queue
  | lockPi t =>
    by_cases hent : s.task t = .entering
    swap
    · simp only [piStep, if_neg hent]
      exact h
    by_cases hw : s.futex.word = 0
    · have hstep : piStep s (.lockPi t) = ⟨⟨t, s.futex.queue⟩, Function.update s.task t .holding⟩ := by
        simp [piStep, hent, futexLockPiLocked, hw]
      rw [hstep]
      exact h.take hw he s.futex.queue
    · have hne : ¬s.futex.word &&& INT32_MAX = 0 := fun h0 => hw (h.word_and.1 h0)
      have hstep : piStep s (.lockPi t) =
          ⟨⟨s.futex.word, s.futex.queue ++ [t]⟩, Function.update s.task t .queued⟩ := by
        simp [piStep, hent, futexLockPiLocked, hne]
      rw [hstep]
      exact h.move (by rw [hent]; simp) .queued (by simp) (by simp) (s.futex.queue ++ [t])
  | userUnlock t =>
    by_cases hhold : s.task t = .holding
    swap
    · simp only [piStep, if_neg hhold]
      exact h
    have hw : s.futex.word = t := (h.owner t hhold).symm
    have hstep : piStep s (.userUnlock t) = ⟨⟨0, s.futex.queue⟩, Function.update s.task t .idle⟩ := by
      simp [piStep, hhold, userUnlockPi, hw]
    rw [hstep]
    refine ⟨Or.inl rfl, fun _ u => ?_, fun u hu => ?_, fun hw0 => absurd rfl hw0, fun u => ?_⟩
    · by_cases hut : u = t
      · subst hut
        simp
      · simp only [Function.update_of_ne hut]
        exact fun hu => hut ((h.owner u hu).trans hw)
    · by_cases hut : u = t
      · subst hut
        simp at hu
      · simp only [Function.update_of_ne hut] at hu
        exact absurd ((h.owner u hu).trans hw) hut
    · by_cases hut : u = t
      · subst hut
        simp
      · simp only [Function.update_of_ne hut]
        exact h.noUnlock u
  | unlockPi t =>
    simp only [piStep, if_neg (h.noUnlock t)]
    exact h

theorem run_piOk {es : List PiEvent} (h : PiOk s) (hl : ∀ e ∈ es, LegalEvent e) : PiOk (piRun s es) := by
  induction es generalizing s with
  | nil => exact h
  | cons e es ih => exact ih (step_piOk h (hl e List.mem_cons_self)) fun e' he' => hl e' (List.mem_cons_of_mem e he')

/-- a queued thread is woken only by FUTEX_UNLOCK_PI, which no thread enters -/
theorem step_queued (h : PiOk s) {w : Nat} (hq : s.task w = .queued) (e : PiEvent) :
    (piStep s e).task w = .queued := by
  cases e with
  | userLock t | lockPi t | userUnlock t =>
    simp only [piStep]
    by_cases hat : s.task t = .idle ∨ s.task t = .entering ∨ s.task t = .holding
    · have hwt : w ≠ t := fun hwt => by
        subst hwt
        rw [hq] at hat
        simp at hat
      split_ifs <;> simp [Function.update_of_ne hwt, hq]
    · simp only [not_or] at hat
      simp [hat.1, hat.2.1, hat.2.2, hq]
  | unlockPi t =>
    simp only [piStep, if_neg (h.noUnlock t)]
    exact hq

theorem run_queued {es : List PiEvent} (h : PiOk s) (hl : ∀ e ∈ es, LegalEvent e) {w : Nat}
    (hq : s.task w = .queued) : (piRun s es).task w = .queued := by
  induction es generalizing s with
  | nil => exact hq
  | cons e es ih =>
    exact ih (step_piOk h (hl e List.mem_cons_self)) (fun e' he' => hl e' (List.mem_cons_of_mem e he'))
      (step_queued h hq e)

/-- the lock still excludes: at most one thread holds it -/
theorem PiOk.holder_unique (h : PiOk s) {u : Nat} (ht : s.task t = .holding) (hu : s.task u = .holding) : t = u :=
  (h.owner t ht).trans (h.owner u hu).symm

end Steps

theorem piInit_ok : PiOk piInit :=
  ⟨Or.inl rfl, fun _ _ => by simp [piInit], fun _ h => by simp [piInit] at h, fun h => absurd rfl h,
    fun _ => by simp [piInit]⟩

/-- thread 1 takes the lock in user space, and thread 2, whose swap fails, queues in FUTEX_LOCK_PI -/
def contended : PiSys := piRun piInit [.userLock 1, .userLock 2, .lockPi 2]

/-- along every legal run from the free lock, at most one thread holds it, and the word never has FUTEX_WAITERS -/
theorem run_exclusive {es : List PiEvent} (hl : ∀ e ∈ es, LegalEvent e) :
    (∀ t u, (piRun piInit es).task t = .holding → (piRun piInit es).task u = .holding → t = u) ∧
      (piRun piInit es).futex.word &&& FUTEX_WAITERS = 0 := by
  have h := run_piOk piInit_ok hl
  refine ⟨fun t u ht hu => h.holder_unique ht hu, ?_⟩
  rcases h.word with h0 | hv
  · rw [h0]
    rfl
  · exact and_waiters hv.2

theorem run_exclusive_contended :
    (∀ e ∈ [PiEvent.userLock 1, .userLock 2, .lockPi 2], LegalEvent e) ∧
      (∀ t u, contended.task t = .holding → contended.task u = .holding → t = u) ∧
        contended.futex.word &&& FUTEX_WAITERS = 0 :=
  have hl : ∀ e ∈ [PiEvent.userLock 1, .userLock 2, .lockPi 2], LegalEvent e := by
    simp [LegalEvent, ValidTid, FUTEX_TID_MASK]
  ⟨hl, run_exclusive hl⟩

theorem pi_waiter_stranded :
    contended.task 2 = .queued ∧ contended.futex.word &&& FUTEX_WAITERS = 0 ∧
      (piStep contended (.userUnlock 1)).futex.word = 0 ∧
      ∀ es, (∀ e ∈ es, LegalEvent e) → (piRun (piStep contended (.userUnlock 1)) es).task 2 = .queued := by
  have hok : PiOk contended :=
    run_piOk piInit_ok (by simp [LegalEvent, ValidTid, FUTEX_TID_MASK])
  refine ⟨by decide, by decide, by decide, fun es hl => ?_⟩
  exact run_queued (step_piOk hok (by simp [LegalEvent, ValidTid, FUTEX_TID_MASK])) hl (by decide)

end Naos.Futex
