/-
The watches of fs/syscall/epoll.c as records, and the invariant every step keeps.

Every instance keeps its watches in a list (epoll->watches). Each watch is also linked on its file's epoll_watches
list and, while armed, queued on the poll_wait queue of its file's inode through the wait entry it embeds. The model
keeps all three: the instances' lists of records and, on the files' side, whose watch of the file is on each list or
queue, an instance having one watch of a file. A wake notification of an inode (vfs_poll_notify_inode) runs
epoll_watch_wake for the entries on its queue whose events match, which clears last_ready_events. The notification
of the owner's epoll inode that the wake sends on, and the one epoll_ctl sends after an ADD or a MOD, notify other
inodes: a run takes them as steps of their own. A collection (epoll_collect_ready_locked) walks one list under
epoll->lock. do_epoll_wait runs consuming collections until one finds an event, with any other step between them;
epollfs_poll, the scan of a nested epoll, consumes nothing.

Results:
- `WatchInv.detach`, `SysInv.add`, `SysInv.mod`: detaching a watch, an ADD of a file the instance does not watch
  and a MOD keep the invariant: one watch per file object in each instance, each owned by it, linked on its file and
  armed on its inode's queue with its events, and nothing else on the files' lists and queues;
- `epollCtlFile_cases`: an epoll_ctl call is refused and changes nothing, or is one of ADD, DEL and MOD;
- `sysRun_inv`: every run keeps the invariant.
-/
import Mathlib
import Naos.Fs.EpollCtl

namespace Naos.Epoll.Watch

open Naos.Epoll

/-! ## The model -/

def ENOTSUP : Int := 95

def EPOLLIN : UInt32 := 0x001
def EPOLLOUT : UInt32 := 0x004
def EPOLLERR : UInt32 := 0x008
def EPOLLHUP : UInt32 := 0x010
def EPOLLNVAL : UInt32 := 0x020
def EPOLLRDNORM : UInt32 := 0x040
def EPOLLWRNORM : UInt32 := 0x100
def EPOLLEXCLUSIVE : UInt32 := (1 : UInt32) <<< 28
def EPOLLWAKEUP : UInt32 := (1 : UInt32) <<< 29
def EPOLLONESHOT : UInt32 := (1 : UInt32) <<< 30
def EPOLLET : UInt32 := (1 : UInt32) <<< 31

def EPOLL_ALWAYS_EVENTS : UInt32 := EPOLLERR ||| EPOLLHUP ||| EPOLLNVAL
def EPOLL_CONTROL_FLAGS : UInt32 := EPOLLET ||| EPOLLONESHOT ||| EPOLLWAKEUP ||| EPOLLEXCLUSIVE

/-- the aliasing of EPOLLIN with EPOLLRDNORM and of EPOLLOUT with EPOLLWRNORM, which vfs_poll_expand_events,
wait_queue_expand_events and epoll_reportable_events each write out -/
def expandEvents (events : UInt32) : UInt32 :=
  let events := if events &&& EPOLLIN ≠ 0 then events ||| EPOLLRDNORM else events
  let events := if events &&& EPOLLRDNORM ≠ 0 then events ||| EPOLLIN else events
  let events := if events &&& EPOLLOUT ≠ 0 then events ||| EPOLLWRNORM else events
  if events &&& EPOLLWRNORM ≠ 0 then events ||| EPOLLOUT else events

/-- vfs_poll_expand_events of fs/vfs/vfs_file.c -/
def vfsPollExpandEvents (events : UInt32) : UInt32 := expandEvents events

/-- wait_queue_expand_events of task/wait.c -/
def waitQueueExpandEvents (events : UInt32) : UInt32 := expandEvents events

def epollFilterEvents (events : UInt32) : UInt32 := events &&& ~~~EPOLL_CONTROL_FLAGS

/-- epoll_reportable_events: what is ready of the requested events and the always-reported ones, aliased -/
def epollReportableEvents (requested ready : UInt32) : UInt32 :=
  ready &&& expandEvents (requested ||| EPOLL_ALWAYS_EVENTS)

/-- wait_queue_events_match of task/wait.c -/
def waitQueueEventsMatch (wanted signaled : UInt32) : Bool :=
  if wanted = 0 ∨ signaled = 0 then true
  else
    let signaled := waitQueueExpandEvents signaled
    let wanted := waitQueueExpandEvents wanted
    if signaled &&& (EPOLLERR ||| EPOLLHUP ||| EPOLLNVAL) ≠ 0 then true
    else wanted &&& signaled ≠ 0

/-- the int a uint32_t converts to -/
def intOfUInt32 (x : UInt32) : Int :=
  if x.toNat < 2 ^ 31 then x.toNat else x.toNat - 2 ^ 32

/-- vfs_poll_with_table, given what the file's poll operation answers (none: the file has no poll operation) -/
def vfsPollWithTable (answer : Option UInt32) (events : UInt32) : Int :=
  match answer with
  | none => -ENOTSUP
  | some answer =>
    let requestEvents := events ||| EPOLLERR ||| EPOLLHUP ||| EPOLLNVAL
    intOfUInt32 (vfsPollExpandEvents answer &&& requestEvents)

abbrev InodeId := Nat

/-- epoll_watch_t. waitEvents and waitArmed are the wait entry it embeds: the events it was armed with, and whether
it is on the poll_wait queue of the file's inode -/
structure EpollWatch where
  file : FileId
  owner : Option EpollId
  waitEvents : UInt32
  waitArmed : Bool
  events : UInt32
  lastReadyEvents : UInt32
  data : UInt64
  edgeTriggered : Bool
  oneShot : Bool
  disabled : Bool
  deriving DecidableEq, Repr

/-- struct epoll_event -/
structure EpollEvent where
  events : UInt32
  data : UInt64
  deriving DecidableEq, Repr

/-- the epoll_watches list of every file, as the instances whose watch of the file is on it -/
abbrev FileWatches := FileId → List EpollId

/-- the poll_wait queue of every inode, as the epoll wait entries on it: the instance and the file of the watch -/
abbrev PollWait := InodeId → List (EpollId × FileId)

/-- the epoll state of the system: the watch list of every instance, the files' lists and the inodes' queues, and
what the poll operation of every file answers now -/
structure EpollSys where
  watches : EpollId → List EpollWatch
  epollWatches : FileWatches
  pollWait : PollWait
  ready : FileId → UInt32

/-- the files an instance's watches point to, the lists of Naos.Epoll -/
def EpollSys.watchFiles (s : EpollSys) : Watches := fun epoll => (s.watches epoll).map EpollWatch.file

/-- the loop of epoll_ctl_file that looks for the watch of the same file object -/
def findWatch (s : EpollSys) (epoll : EpollId) (file : FileId) : Option EpollWatch :=
  (s.watches epoll).find? (·.file == file)

section Ops

variable (inode : FileId → InodeId)

/-- epoll_watch_arm: the wait entry, with the watch's events and the always-reported ones, goes on the poll_wait
queue of the file's inode -/
def epollWatchArm (epoll : EpollId) (watch : EpollWatch) (pollWait : PollWait) : EpollWatch × PollWait :=
  if watch.waitArmed then (watch, pollWait)
  else
    ({ watch with waitEvents := watch.events ||| EPOLL_ALWAYS_EVENTS, owner := some epoll, waitArmed := true },
      Function.update pollWait (inode watch.file) (pollWait (inode watch.file) ++ [(epoll, watch.file)]))

/-- epoll_watch_disarm -/
def epollWatchDisarm (epoll : EpollId) (watch : EpollWatch) (pollWait : PollWait) : EpollWatch × PollWait :=
  if !watch.waitArmed then (watch, pollWait)
  else
    ({ watch with waitArmed := false },
      Function.update pollWait (inode watch.file) ((pollWait (inode watch.file)).erase (epoll, watch.file)))

/-- epoll_watch_update_events: an armed watch is disarmed and armed again with its new events -/
def epollWatchUpdateEvents (epoll : EpollId) (watch : EpollWatch) (events : UInt32) (pollWait : PollWait) :
    EpollWatch × PollWait :=
  let wasArmed := watch.waitArmed
  let disarmed := if wasArmed then epollWatchDisarm inode epoll watch pollWait else (watch, pollWait)
  let updated := { disarmed.1 with events := events }
  if wasArmed then epollWatchArm inode epoll updated disarmed.2 else (updated, disarmed.2)

/-- epoll_watch_link_file: on the file's list, unless it is there -/
def epollWatchLinkFile (epoll : EpollId) (watch : EpollWatch) (epollWatches : FileWatches) : FileWatches :=
  if epoll ∈ epollWatches watch.file then epollWatches
  else Function.update epollWatches watch.file (epollWatches watch.file ++ [epoll])

/-- epoll_watch_unlink_file -/
def epollWatchUnlinkFile (epoll : EpollId) (watch : EpollWatch) (epollWatches : FileWatches) : FileWatches :=
  if epoll ∈ epollWatches watch.file then
    Function.update epollWatches watch.file ((epollWatches watch.file).erase epoll)
  else epollWatches

/-- epoll_watch_detach_locked on the watch `watch` of `epoll`: off its inode's queue, off its file's list when
`unlinkFile`, and out of the instance's list -/
def epollWatchDetachLocked (s : EpollSys) (epoll : EpollId) (watch : EpollWatch) (unlinkFile : Bool) : EpollSys :=
  let pollWait := (epollWatchDisarm inode epoll watch s.pollWait).2
  let epollWatches := if unlinkFile then epollWatchUnlinkFile epoll watch s.epollWatches else s.epollWatches
  { s with
    watches := Function.update s.watches epoll ((s.watches epoll).erase watch)
    epollWatches := epollWatches
    pollWait := pollWait }

/-- epoll_watch_destroy -/
def epollWatchDestroy (s : EpollSys) (epoll : EpollId) (watch : EpollWatch) : EpollSys :=
  epollWatchDetachLocked inode s epoll watch true

/-- one entry of the drop list of epoll_on_close_file: the watch of `owner`, detached under its lock -/
def epollDropWatch (file : FileId) (s : EpollSys) (owner : EpollId) : EpollSys :=
  match findWatch s owner file with
  | some drop => epollWatchDetachLocked inode s owner drop false
  | none => s

/-- epoll_on_close_file: when the last descriptor of the file is closed, every watch of it is moved off its list
and detached from its instance -/
def epollOnCloseFile (s : EpollSys) (file : FileId) (fdRef : Int) : EpollSys :=
  if fdRef > 0 then s
  else
    let dropWatches := s.epollWatches file
    -- watch_count, and the fd references read again under the locks
    if dropWatches.length ≤ 0 ∨ fdRef > 0 then s
    else
      dropWatches.foldl (epollDropWatch inode file) { s with epollWatches := Function.update s.epollWatches file [] }

/-- epollfs_release: every watch of the instance is destroyed -/
def epollfsRelease (s : EpollSys) (epoll : EpollId) : EpollSys :=
  (s.watches epoll).foldl (fun s watch => epollWatchDestroy inode s epoll watch) s

/-- the EPOLL_CTL_ADD case: a new watch at the end of the instance's list, linked on its file and armed -/
def epollCtlAdd (s : EpollSys) (epoll : EpollId) (target : FileId) (event : EpollEvent) : EpollSys :=
  let newWatch : EpollWatch :=
    { file := target
      owner := some epoll
      waitEvents := 0
      waitArmed := false
      events := epollFilterEvents event.events
      lastReadyEvents := 0
      data := event.data
      edgeTriggered := event.events &&& EPOLLET != 0
      oneShot := event.events &&& EPOLLONESHOT != 0
      disabled := false }
  let epollWatches := epollWatchLinkFile epoll newWatch s.epollWatches
  let armed := epollWatchArm inode epoll newWatch s.pollWait
  { s with
    watches := Function.update s.watches epoll (s.watches epoll ++ [armed.1])
    epollWatches := epollWatches
    pollWait := armed.2 }

/-- the EPOLL_CTL_MOD case: new events, data and flags, enabled again with no ready events seen -/
def epollCtlMod (s : EpollSys) (epoll : EpollId) (existing : EpollWatch) (event : EpollEvent) : EpollSys :=
  let updated := epollWatchUpdateEvents inode epoll existing (epollFilterEvents event.events) s.pollWait
  let modified : EpollWatch :=
    { updated.1 with
      data := event.data
      edgeTriggered := event.events &&& EPOLLET != 0
      oneShot := event.events &&& EPOLLONESHOT != 0
      disabled := false
      lastReadyEvents := 0 }
  { s with
    watches := Function.update s.watches epoll ((s.watches epoll).map fun b => if b = existing then modified else b),
    pollWait := updated.2 }

/-- epoll_ctl_file on the epoll file `epollFile`, with the event given or not: its return value and the system
after it. The checks are those of Naos.Epoll.epollCtlFile -/
def epollCtlFile (files : Files) (s : EpollSys) (epollFile : FileId) (op fd : Int) (event : Option EpollEvent) :
    Int × EpollSys :=
  if op ≠ EPOLL_CTL_ADD ∧ op ≠ EPOLL_CTL_DEL ∧ op ≠ EPOLL_CTL_MOD then (-EINVAL, s)
  else if (op = EPOLL_CTL_ADD ∨ op = EPOLL_CTL_MOD) ∧ event.isNone then (-EFAULT, s)
  else
    match files.handle epollFile with
    | none => (-EBADF, s)
    | some epoll =>
      match files.fdTable fd with
      | none => (-EBADF, s)
      | some target =>
        if target = epollFile then (-EINVAL, s)
        else if !files.hasPoll target then (-EPERM, s)
        else if files.fdRef target ≤ 0 then (-EBADF, s)
        else if op = EPOLL_CTL_ADD ∧
            (files.handle target).any (fun targetEpoll => epollContainsFile files s.watchFiles targetEpoll epollFile 0) then
          (-ELOOP, s)
        else
          let existing := findWatch s epoll target
          -- the event is given for ADD and MOD: checked above
          if op = EPOLL_CTL_ADD then
            match existing with
            | some _ => (-EEXIST, s)
            | none => (0, epollCtlAdd inode s epoll target (event.getD ⟨0, 0⟩))
          else if op = EPOLL_CTL_DEL then
            match existing with
            | none => (-ENOENT, s)
            | some existing => (0, epollWatchDestroy inode s epoll existing)
          else
            match existing with
            | none => (-ENOENT, s)
            | some existing => (0, epollCtlMod inode s epoll existing (event.getD ⟨0, 0⟩))

end Ops

section Collect

variable (hasPoll : FileId → Bool) (ready : FileId → UInt32)

/-- the ready_events of the collection loop for one watch: EPOLLNVAL when the poll fails, else the reportable events
of what the file's poll answers -/
def epollWatchReadyEvents (browse : EpollWatch) : UInt32 :=
  let requestEvents := browse.events ||| EPOLL_ALWAYS_EVENTS
  let pollRet := vfsPollWithTable (if hasPoll browse.file then some (ready browse.file) else none) requestEvents
  if pollRet < 0 then EPOLLNVAL else epollReportableEvents browse.events (UInt32.ofNat pollRet.toNat)

/-- the body of the collection loop for a watch it reaches, enabled and before maxevents: the event it reports, if
any, and the watch after it -/
def epollCollectWatch (consume : Bool) (readyEvents : UInt32) (browse : EpollWatch) : Option EpollEvent × EpollWatch :=
  if browse.edgeTriggered ∧ readyEvents &&& ~~~browse.lastReadyEvents = 0 then
    (none, if consume then { browse with lastReadyEvents := readyEvents } else browse)
  else if readyEvents ≠ 0 then
    let browse' := if consume then { browse with lastReadyEvents := readyEvents } else browse
    (some ⟨readyEvents, browse.data⟩, if consume ∧ browse.oneShot then { browse' with disabled := true } else browse')
  else (none, if consume then { browse with lastReadyEvents := 0 } else browse)

/-- the loop of epoll_collect_ready_locked over a watch list, after the events found so far. A disabled watch is
passed over; maxevents found, the loop stops (every watch of a list has a file) -/
def epollCollectReadyLoop (maxevents : Nat) (consume : Bool) :
    List EpollWatch → List EpollEvent → List EpollEvent × List EpollWatch
  | [], events => (events, [])
  | browse :: rest, events =>
    if browse.disabled then
      let r := epollCollectReadyLoop maxevents consume rest events
      (r.1, browse :: r.2)
    else if maxevents ≤ events.length then (events, browse :: rest)
    else
      let visit := epollCollectWatch consume (epollWatchReadyEvents hasPoll ready browse) browse
      let r := epollCollectReadyLoop maxevents consume rest (events ++ visit.1.toList)
      (r.1, visit.2 :: r.2)

theorem epollCollectReadyLoop_cons (maxevents : Nat) (consume : Bool) (browse : EpollWatch)
    (rest : List EpollWatch) (events : List EpollEvent) :
    epollCollectReadyLoop hasPoll ready maxevents consume (browse :: rest) events =
      if browse.disabled then
        let r := epollCollectReadyLoop hasPoll ready maxevents consume rest events
        (r.1, browse :: r.2)
      else if maxevents ≤ events.length then (events, browse :: rest)
      else
        let visit := epollCollectWatch consume (epollWatchReadyEvents hasPoll ready browse) browse
        let r := epollCollectReadyLoop hasPoll ready maxevents consume rest (events ++ visit.1.toList)
        (r.1, visit.2 :: r.2) := rfl

end Collect

/-- epoll_collect_ready_locked on one instance: the events found and the system after -/
def epollCollectReadyLocked (hasPoll : FileId → Bool) (s : EpollSys) (epoll : EpollId) (maxevents : Nat)
    (consume : Bool) : List EpollEvent × EpollSys :=
  let r := epollCollectReadyLoop hasPoll s.ready maxevents consume (s.watches epoll) []
  (r.1, { s with watches := Function.update s.watches epoll r.2 })

/-- epollfs_poll: a scan for one event that consumes nothing (a failed trylock answers 0 as well) -/
def epollfsPoll (hasPoll : FileId → Bool) (s : EpollSys) (epoll : EpollId) : UInt32 :=
  if (epollCollectReadyLocked hasPoll s epoll 1 false).1.length > 0 then EPOLLIN ||| EPOLLRDNORM else 0

/-- one pass of the loop of do_epoll_wait: the events a consuming collection finds. When it finds none the call
waits, and its next pass runs on the system the other steps leave -/
def doEpollWaitPass (hasPoll : FileId → Bool) (files : Files) (s : EpollSys) (epollFile : FileId) (maxevents : Int) :
    Except Int (List EpollEvent) × EpollSys :=
  if maxevents < 1 then (.error (-EINVAL), s)
  else
    match files.handle epollFile with
    | none => (.error (-EBADF), s)
    | some epoll =>
      let r := epollCollectReadyLocked hasPoll s epoll maxevents.toNat true
      (.ok r.1, r.2)

/-- epoll_watch_wake: the watched file changed, so the next scan reports what is ready -/
def epollWatchWake (watch : EpollWatch) : EpollWatch :=
  if watch.owner.isSome then { watch with lastReadyEvents := 0 } else watch

/-- vfs_poll_notify_inode on the epoll wait entries: every watch whose entry is on the inode's queue and matches the
expanded events is woken -/
def vfsPollNotifyInode (s : EpollSys) (inode : InodeId) (events : UInt32) : EpollSys :=
  let signaled := vfsPollExpandEvents events
  { s with
    watches := fun epoll => (s.watches epoll).map fun watch =>
      if (epoll, watch.file) ∈ s.pollWait inode ∧ waitQueueEventsMatch watch.waitEvents signaled then
        epollWatchWake watch
      else watch }

/-- the steps of a run: epoll_ctl calls, closes of a file's last descriptor, releases of an instance, changes of what
a file's poll answers, wake notifications of an inode and passes of epoll_wait -/
inductive EpollOp
  | ctl (files : Files) (epollFile : FileId) (op fd : Int) (event : Option EpollEvent)
  | onClose (file : FileId) (fdRef : Int)
  | release (epoll : EpollId)
  | setReady (file : FileId) (answer : UInt32)
  | notify (inode : InodeId) (events : UInt32)
  | wait (files : Files) (epollFile : FileId) (maxevents : Int)

section Run

variable (inode : FileId → InodeId) (hasPoll : FileId → Bool)

def sysStep (s : EpollSys) : EpollOp → EpollSys
  | .ctl files epollFile op fd event => (epollCtlFile inode files s epollFile op fd event).2
  | .onClose file fdRef => epollOnCloseFile inode s file fdRef
  | .release epoll => epollfsRelease inode s epoll
  | .setReady file answer => { s with ready := Function.update s.ready file answer }
  | .notify i events => vfsPollNotifyInode s i events
  | .wait files epollFile maxevents => (doEpollWaitPass hasPoll files s epollFile maxevents).2

def sysRun : EpollSys → List EpollOp → EpollSys
  | s, [] => s
  | s, op :: ops => sysRun (sysStep inode hasPoll s op) ops

end Run

/-! ## Lists with distinct keys -/

section Lists

variable {α β : Type} [DecidableEq α] (key : α → β)

/-- with distinct keys, erasing an element erases its key -/
theorem map_erase_of_nodup [DecidableEq β] {l : List α} {a : α} (hnd : (l.map key).Nodup) (ha : a ∈ l) :
    (l.erase a).map key = (l.map key).erase (key a) := by
  induction l with
  | nil => exact absurd ha List.not_mem_nil
  | cons b l ih =>
    rw [List.map_cons, List.nodup_cons] at hnd
    by_cases hab : b = a
    · subst hab
      simp
    · have ha' : a ∈ l := (List.mem_cons.1 ha).resolve_left (Ne.symm hab)
      have hkey : key b ≠ key a := fun h => hnd.1 (h ▸ List.mem_map_of_mem ha')
      rw [List.erase_cons_tail (by rw [beq_iff_eq]; exact hab)]
      simp only [List.map_cons]
      rw [List.erase_cons_tail (by rw [beq_iff_eq]; exact hkey), ih hnd.2 ha']

theorem key_ne_of_mem_erase [DecidableEq β] {l : List α} {a b : α} (hnd : (l.map key).Nodup) (ha : a ∈ l) (hb : b ∈ l.erase a) :
    key b ≠ key a := by
  have hmem : key b ∈ (l.map key).erase (key a) := map_erase_of_nodup key hnd ha ▸ List.mem_map_of_mem hb
  exact (hnd.mem_erase_iff.1 hmem).1

/-- replacing an element by one of the same key keeps the keys -/
theorem map_replace_eq {l : List α} {a a' : α} (h : key a' = key a) :
    (l.map fun b => if b = a then a' else b).map key = l.map key := by
  rw [List.map_map]
  refine List.map_congr_left fun b _ => ?_
  by_cases hb : b = a
  · simp [hb, h]
  · simp [hb]

variable {γ δ : Type} [DecidableEq γ] {L : γ → List δ} {k j : γ} {a x : δ}

/-- a list of a table of lists with one element erased -/
theorem mem_update_erase [BEq δ] [LawfulBEq δ] (hnd : (L k).Nodup) :
    x ∈ Function.update L k ((L k).erase a) j ↔ x ∈ L j ∧ (j = k → x ≠ a) := by
  by_cases hj : j = k
  · subst hj
    simp [hnd.mem_erase_iff, and_comm]
  · simp [hj]

theorem mem_update_append : x ∈ Function.update L k (L k ++ [a]) j ↔ x ∈ L j ∨ (j = k ∧ x = a) := by
  by_cases hj : j = k
  · subst hj
    simp
  · simp [hj]

theorem nodup_update_erase [BEq δ] [LawfulBEq δ] (hnd : ∀ j, (L j).Nodup) (j : γ) : (Function.update L k ((L k).erase a) j).Nodup := by
  by_cases hj : j = k
  · subst hj
    rw [Function.update_self]
    exact (hnd j).erase a
  · rw [Function.update_of_ne hj]
    exact hnd j

theorem nodup_update_append (hnd : ∀ j, (L j).Nodup) (ha : a ∉ L k) (j : γ) :
    (Function.update L k (L k ++ [a]) j).Nodup := by
  by_cases hj : j = k
  · subst hj
    rw [Function.update_self, List.nodup_append]
    exact ⟨hnd j, List.nodup_singleton a, fun b hb c hc => by rw [List.mem_singleton] at hc; exact hc ▸ fun h => ha (h ▸ hb)⟩
  · rw [Function.update_of_ne hj]
    exact hnd j

theorem mem_update_erase_append [BEq δ] [LawfulBEq δ] (hnd : (L k).Nodup) (ha : a ∈ L k) :
    x ∈ Function.update L k ((L k).erase a ++ [a]) j ↔ x ∈ L j := by
  by_cases hj : j = k
  · subst hj
    rw [Function.update_self, List.mem_append, hnd.mem_erase_iff, List.mem_singleton]
    by_cases hx : x = a
    · simp [hx, ha]
    · simp [hx]
  · rw [Function.update_of_ne hj]

theorem nodup_update_erase_append [BEq δ] [LawfulBEq δ] (hnd : ∀ j, (L j).Nodup) (j : γ) :
    (Function.update L k ((L k).erase a ++ [a]) j).Nodup := by
  by_cases hj : j = k
  · subst hj
    rw [Function.update_self, List.nodup_append]
    refine ⟨(hnd j).erase a, List.nodup_singleton a, fun b hb c hc => ?_⟩
    rw [List.mem_singleton] at hc
    exact hc ▸ ((hnd j).mem_erase_iff.1 hb).1
  · rw [Function.update_of_ne hj]
    exact hnd j

end Lists

/-! ## What the operations do to armed watches -/

section Specs

variable {inode : FileId → InodeId} {s : EpollSys} {epoll : EpollId} {w : EpollWatch}

theorem findWatch_some {file : FileId} (h : findWatch s epoll file = some w) : w ∈ s.watches epoll ∧ w.file = file :=
  ⟨List.mem_of_find?_eq_some h, by simpa using List.find?_some h⟩

theorem findWatch_none_iff {file : FileId} : findWatch s epoll file = none ↔ file ∉ s.watchFiles epoll := by
  simp [findWatch, EpollSys.watchFiles, List.find?_eq_none]

/-- with one watch per file, the search finds the watch of its file -/
theorem findWatch_of_mem (hnd : (s.watchFiles epoll).Nodup) (hw : w ∈ s.watches epoll) :
    findWatch s epoll w.file = some w := by
  cases hfind : findWatch s epoll w.file with
  | none => exact absurd (List.mem_map_of_mem hw) ((findWatch_none_iff).1 hfind)
  | some w' =>
    obtain ⟨hw', hfile⟩ := findWatch_some hfind
    rw [List.inj_on_of_nodup_map hnd hw' hw hfile]

@[simp] theorem epollWatchUnlinkFile_eq (links : FileWatches) :
    epollWatchUnlinkFile epoll w links = Function.update links w.file ((links w.file).erase epoll) := by
  unfold epollWatchUnlinkFile
  split
  · rfl
  · next h => rw [List.erase_of_not_mem h, Function.update_eq_self]

theorem epollWatchUpdateEvents_of_armed (pollWait : PollWait) (events : UInt32) (h : w.waitArmed = true) :
    epollWatchUpdateEvents inode epoll w events pollWait =
      ({ w with events := events, waitEvents := events ||| EPOLL_ALWAYS_EVENTS, owner := some epoll },
        Function.update pollWait (inode w.file)
          ((pollWait (inode w.file)).erase (epoll, w.file) ++ [(epoll, w.file)])) := by
  simp [epollWatchUpdateEvents, epollWatchDisarm, epollWatchArm, h]

@[simp] theorem epollWatchDetachLocked_watches (unlinkFile : Bool) :
    (epollWatchDetachLocked inode s epoll w unlinkFile).watches =
      Function.update s.watches epoll ((s.watches epoll).erase w) := rfl

@[simp] theorem epollWatchDetachLocked_epollWatches (unlinkFile : Bool) :
    (epollWatchDetachLocked inode s epoll w unlinkFile).epollWatches =
      if unlinkFile then Function.update s.epollWatches w.file ((s.epollWatches w.file).erase epoll)
      else s.epollWatches := by
  simp [epollWatchDetachLocked]

theorem epollWatchDetachLocked_pollWait (unlinkFile : Bool) (h : w.waitArmed = true) :
    (epollWatchDetachLocked inode s epoll w unlinkFile).pollWait =
      Function.update s.pollWait (inode w.file) ((s.pollWait (inode w.file)).erase (epoll, w.file)) := by
  simp [epollWatchDetachLocked, epollWatchDisarm, h]

end Specs

/-! ## The watch invariant -/

/-- the watches of every instance, given the files' lists `links`: one per file object, each owned by its instance,
armed with its events, linked on its file and queued on its inode; the lists and the queues hold each live watch
once and nothing else. During epoll_on_close_file the closed file's list is already empty and its watches are on
the drop list, which `links` holds in its place -/
structure WatchInv (inode : FileId → InodeId) (links : FileWatches) (s : EpollSys) : Prop where
  nodup : ∀ epoll, (s.watchFiles epoll).Nodup
  owned : ∀ epoll, ∀ w ∈ s.watches epoll, w.owner = some epoll
  armed : ∀ epoll, ∀ w ∈ s.watches epoll, w.waitArmed = true ∧ w.waitEvents = w.events ||| EPOLL_ALWAYS_EVENTS
  linked : ∀ epoll, ∀ w ∈ s.watches epoll, epoll ∈ links w.file
  queued : ∀ epoll, ∀ w ∈ s.watches epoll, (epoll, w.file) ∈ s.pollWait (inode w.file)
  linksNodup : ∀ file, (links file).Nodup
  linksLive : ∀ file epoll, epoll ∈ links file → file ∈ s.watchFiles epoll
  queueNodup : ∀ i, (s.pollWait i).Nodup
  queueLive : ∀ i epoll file, (epoll, file) ∈ s.pollWait i → inode file = i ∧ file ∈ s.watchFiles epoll

/-- the watch invariant with the files' own lists -/
def SysInv (inode : FileId → InodeId) (s : EpollSys) : Prop := WatchInv inode s.epollWatches s

section Detach

variable {inode : FileId → InodeId} {links : FileWatches} {s : EpollSys} {epoll : EpollId} {w : EpollWatch}

/-- the watches left in the lists after a watch is detached -/
theorem mem_detach_watches (h : WatchInv inode links s) (hw : w ∈ s.watches epoll) (unlinkFile : Bool)
    {e : EpollId} {w' : EpollWatch} (hw' : w' ∈ (epollWatchDetachLocked inode s epoll w unlinkFile).watches e) :
    w' ∈ s.watches e ∧ (e = epoll → w'.file ≠ w.file) := by
  rw [epollWatchDetachLocked_watches] at hw'
  by_cases he : e = epoll
  · subst he
    rw [Function.update_self] at hw'
    exact ⟨List.mem_of_mem_erase hw', fun _ => key_ne_of_mem_erase EpollWatch.file (h.nodup e) hw hw'⟩
  · rw [Function.update_of_ne he] at hw'
    exact ⟨hw', fun h => absurd h he⟩

theorem detach_watchFiles (h : WatchInv inode links s) (hw : w ∈ s.watches epoll) (unlinkFile : Bool) (e : EpollId) :
    (epollWatchDetachLocked inode s epoll w unlinkFile).watchFiles e =
      Function.update s.watchFiles epoll ((s.watchFiles epoll).erase w.file) e := by
  by_cases he : e = epoll
  · subst he
    simp [EpollSys.watchFiles, map_erase_of_nodup EpollWatch.file (h.nodup e) hw]
  · simp [EpollSys.watchFiles, he]

/-- detaching a watch keeps the invariant, with its instance off its file's list -/
theorem WatchInv.detach (h : WatchInv inode links s) (hw : w ∈ s.watches epoll) (unlinkFile : Bool) :
    WatchInv inode (Function.update links w.file ((links w.file).erase epoll))
      (epollWatchDetachLocked inode s epoll w unlinkFile) := by
  have hpoll := @epollWatchDetachLocked_pollWait inode s epoll w unlinkFile (h.armed epoll w hw).1
  have hfiles := detach_watchFiles h hw unlinkFile
  refine ⟨fun e => ?_, fun e w' hw' => h.owned e w' (mem_detach_watches h hw unlinkFile hw').1,
    fun e w' hw' => h.armed e w' (mem_detach_watches h hw unlinkFile hw').1, fun e w' hw' => ?_, fun e w' hw' => ?_,
    nodup_update_erase h.linksNodup, fun f e he => ?_, fun i => ?_, fun i e f hq => ?_⟩
  · rw [hfiles]
    exact nodup_update_erase h.nodup e
  · obtain ⟨hold, hne⟩ := mem_detach_watches h hw unlinkFile hw'
    exact (mem_update_erase (h.linksNodup _)).2 ⟨h.linked e w' hold, fun hf he => hne he hf⟩
  · obtain ⟨hold, hne⟩ := mem_detach_watches h hw unlinkFile hw'
    rw [hpoll]
    refine (mem_update_erase (h.queueNodup _)).2 ⟨h.queued e w' hold, fun _ heq => ?_⟩
    rw [Prod.mk.injEq] at heq
    exact hne heq.1 heq.2
  · obtain ⟨hlink, hne⟩ := (mem_update_erase (h.linksNodup _)).1 he
    rw [hfiles]
    exact (mem_update_erase (h.nodup _)).2 ⟨h.linksLive f e hlink, fun he' hf => hne hf he'⟩
  · rw [hpoll]
    exact nodup_update_erase h.queueNodup i
  · rw [hpoll] at hq
    obtain ⟨hold, hne⟩ := (mem_update_erase (h.queueNodup _)).1 hq
    obtain ⟨hi, hf⟩ := h.queueLive i e f hold
    rw [hfiles]
    exact ⟨hi, (mem_update_erase (h.nodup _)).2 ⟨hf, fun he hff => hne (hi ▸ hff ▸ rfl) (by rw [he, hff])⟩⟩

end Detach

/-! ## ADD, MOD, DEL, close and release keep the invariant -/

section Ctl

variable {inode : FileId → InodeId} {s : EpollSys} {epoll : EpollId} {w : EpollWatch}

/-- the watch EPOLL_CTL_ADD appends, armed -/
theorem epollCtlAdd_watches (target : FileId) (ev : EpollEvent) :
    (epollCtlAdd inode s epoll target ev).watches = Function.update s.watches epoll (s.watches epoll ++
      [{ file := target
         owner := some epoll
         waitEvents := epollFilterEvents ev.events ||| EPOLL_ALWAYS_EVENTS
         waitArmed := true
         events := epollFilterEvents ev.events
         lastReadyEvents := 0
         data := ev.data
         edgeTriggered := ev.events &&& EPOLLET != 0
         oneShot := ev.events &&& EPOLLONESHOT != 0
         disabled := false }]) := rfl

theorem epollCtlAdd_pollWait (target : FileId) (ev : EpollEvent) :
    (epollCtlAdd inode s epoll target ev).pollWait =
      Function.update s.pollWait (inode target) (s.pollWait (inode target) ++ [(epoll, target)]) := rfl

theorem epollCtlAdd_epollWatches {target : FileId} (ev : EpollEvent) (h : epoll ∉ s.epollWatches target) :
    (epollCtlAdd inode s epoll target ev).epollWatches =
      Function.update s.epollWatches target (s.epollWatches target ++ [epoll]) := by
  simp [epollCtlAdd, epollWatchLinkFile, h]

theorem epollCtlAdd_watchFiles (target : FileId) (ev : EpollEvent) :
    (epollCtlAdd inode s epoll target ev).watchFiles =
      Function.update s.watchFiles epoll (s.watchFiles epoll ++ [target]) := by
  funext e
  by_cases he : e = epoll
  · subst he
    simp [EpollSys.watchFiles, epollCtlAdd_watches]
  · simp [EpollSys.watchFiles, epollCtlAdd_watches, he]

/-- an ADD of a file the instance does not watch keeps the invariant -/
theorem SysInv.add (h : SysInv inode s) {target : FileId} (hnew : target ∉ s.watchFiles epoll) (ev : EpollEvent) :
    SysInv inode (epollCtlAdd inode s epoll target ev) := by
  have hlink : epoll ∉ s.epollWatches target := fun hl => hnew (h.linksLive target epoll hl)
  have hqueue : (epoll, target) ∉ s.pollWait (inode target) := fun hq => hnew (h.queueLive _ _ _ hq).2
  unfold SysInv
  rw [epollCtlAdd_epollWatches ev hlink]
  refine ⟨fun e => ?_, fun e w' hw' => ?_, fun e w' hw' => ?_, fun e w' hw' => ?_, fun e w' hw' => ?_,
    nodup_update_append h.linksNodup hlink, fun f e he => ?_, fun i => ?_, fun i e f hq => ?_⟩
  · rw [epollCtlAdd_watchFiles]
    exact nodup_update_append h.nodup hnew e
  all_goals try rw [epollCtlAdd_watches, mem_update_append] at hw'
  · rcases hw' with hold | ⟨rfl, rfl⟩
    · exact h.owned e w' hold
    · rfl
  · rcases hw' with hold | ⟨rfl, rfl⟩
    · exact h.armed e w' hold
    · exact ⟨rfl, rfl⟩
  · rcases hw' with hold | ⟨rfl, rfl⟩
    · exact (mem_update_append).2 (Or.inl (h.linked e w' hold))
    · exact (mem_update_append).2 (Or.inr ⟨rfl, rfl⟩)
  · rw [epollCtlAdd_pollWait]
    rcases hw' with hold | ⟨rfl, rfl⟩
    · exact (mem_update_append).2 (Or.inl (h.queued e w' hold))
    · exact (mem_update_append).2 (Or.inr ⟨rfl, rfl⟩)
  · rw [epollCtlAdd_watchFiles]
    rcases (mem_update_append).1 he with hold | ⟨rfl, rfl⟩
    · exact (mem_update_append).2 (Or.inl (h.linksLive f e hold))
    · exact (mem_update_append).2 (Or.inr ⟨rfl, rfl⟩)
  · rw [epollCtlAdd_pollWait]
    exact nodup_update_append h.queueNodup hqueue i
  · rw [epollCtlAdd_pollWait] at hq
    rw [epollCtlAdd_watchFiles]
    rcases (mem_update_append).1 hq with hold | ⟨rfl, hef⟩
    · obtain ⟨hi, hf⟩ := h.queueLive i e f hold
      exact ⟨hi, (mem_update_append).2 (Or.inl hf)⟩
    · rw [Prod.mk.injEq] at hef
      obtain ⟨rfl, rfl⟩ := hef
      exact ⟨rfl, (mem_update_append).2 (Or.inr ⟨rfl, rfl⟩)⟩

/-- the watch EPOLL_CTL_MOD leaves in place of `w` -/
def modifiedWatch (epoll : EpollId) (w : EpollWatch) (ev : EpollEvent) : EpollWatch :=
  { w with
    events := epollFilterEvents ev.events
    waitEvents := epollFilterEvents ev.events ||| EPOLL_ALWAYS_EVENTS
    owner := some epoll
    data := ev.data
    edgeTriggered := ev.events &&& EPOLLET != 0
    oneShot := ev.events &&& EPOLLONESHOT != 0
    disabled := false
    lastReadyEvents := 0 }

theorem epollCtlMod_watches (hw : w.waitArmed = true) (ev : EpollEvent) :
    (epollCtlMod inode s epoll w ev).watches = Function.update s.watches epoll
      ((s.watches epoll).map fun b => if b = w then modifiedWatch epoll w ev else b) := by
  simp [epollCtlMod, epollWatchUpdateEvents_of_armed _ _ hw, modifiedWatch]

theorem epollCtlMod_pollWait (hw : w.waitArmed = true) (ev : EpollEvent) :
    (epollCtlMod inode s epoll w ev).pollWait = Function.update s.pollWait (inode w.file)
      ((s.pollWait (inode w.file)).erase (epoll, w.file) ++ [(epoll, w.file)]) := by
  simp [epollCtlMod, epollWatchUpdateEvents_of_armed _ _ hw]

/-- a MOD keeps the files of the watches -/
theorem epollCtlMod_watchFiles (hw : w.waitArmed = true) (ev : EpollEvent) :
    (epollCtlMod inode s epoll w ev).watchFiles = s.watchFiles := by
  funext e
  simp only [EpollSys.watchFiles, epollCtlMod_watches hw]
  by_cases he : e = epoll
  · subst he
    rw [Function.update_self]
    exact map_replace_eq EpollWatch.file rfl
  · rw [Function.update_of_ne he]

/-- a MOD of a watch keeps the invariant: its wait entry moves to the end of the same queue -/
theorem SysInv.mod (h : SysInv inode s) (hw : w ∈ s.watches epoll) (ev : EpollEvent) :
    SysInv inode (epollCtlMod inode s epoll w ev) := by
  have harmed := (h.armed epoll w hw).1
  have hq := h.queued epoll w hw
  have hfiles := @epollCtlMod_watchFiles inode s epoll w harmed ev
  have hmem : ∀ e w', w' ∈ (epollCtlMod inode s epoll w ev).watches e →
      w' ∈ s.watches e ∨ (e = epoll ∧ w' = modifiedWatch epoll w ev) := by
    intro e w' hw'
    rw [epollCtlMod_watches harmed] at hw'
    by_cases he : e = epoll
    · subst he
      rw [Function.update_self, List.mem_map] at hw'
      obtain ⟨b, hb, rfl⟩ := hw'
      by_cases hbw : b = w
      · exact Or.inr ⟨rfl, if_pos hbw⟩
      · exact Or.inl (by rw [if_neg hbw]; exact hb)
    · rw [Function.update_of_ne he] at hw'
      exact Or.inl hw'
  have hqueue : ∀ x j, x ∈ (epollCtlMod inode s epoll w ev).pollWait j ↔ x ∈ s.pollWait j := fun x j => by
    rw [epollCtlMod_pollWait harmed]
    exact mem_update_erase_append (h.queueNodup _) hq
  unfold SysInv
  refine ⟨fun e => hfiles ▸ h.nodup e, fun e w' hw' => ?_, fun e w' hw' => ?_, fun e w' hw' => ?_,
    fun e w' hw' => ?_, h.linksNodup, fun f e he => hfiles ▸ h.linksLive f e he, fun i => ?_,
    fun i e f hi => hfiles ▸ h.queueLive i e f ((hqueue _ i).1 hi)⟩
  · rcases hmem e w' hw' with hold | ⟨rfl, rfl⟩
    · exact h.owned e w' hold
    · rfl
  · rcases hmem e w' hw' with hold | ⟨rfl, rfl⟩
    · exact h.armed e w' hold
    · exact ⟨harmed, rfl⟩
  · rcases hmem e w' hw' with hold | ⟨rfl, rfl⟩
    · exact h.linked e w' hold
    · exact h.linked e w hw
  · rw [hqueue]
    rcases hmem e w' hw' with hold | ⟨rfl, rfl⟩
    · exact h.queued e w' hold
    · exact hq
  · rw [epollCtlMod_pollWait harmed]
    exact nodup_update_erase_append h.queueNodup i

/-- EPOLL_CTL_DEL keeps the invariant -/
theorem SysInv.destroy (h : SysInv inode s) (hw : w ∈ s.watches epoll) :
    SysInv inode (epollWatchDestroy inode s epoll w) := by
  have := h.detach hw true
  unfold SysInv epollWatchDestroy
  rwa [epollWatchDetachLocked_epollWatches, if_pos rfl]

end Ctl

section Close

variable {inode : FileId → InodeId} {links : FileWatches} {file : FileId}

theorem foldl_epollDropWatch_epollWatches (drop : List EpollId) (s : EpollSys) :
    (drop.foldl (epollDropWatch inode file) s).epollWatches = s.epollWatches := by
  induction drop generalizing s with
  | nil => rfl
  | cons e drop ih =>
    rw [List.foldl_cons, ih]
    unfold epollDropWatch
    split
    · simp
    · rfl

/-- each owner on the drop list has its watch of the file, which it detaches; the list shrinks as it goes -/
theorem WatchInv.dropWatches :
    ∀ (drop : List EpollId) (s : EpollSys), WatchInv inode (Function.update links file drop) s →
      WatchInv inode (Function.update links file []) (drop.foldl (epollDropWatch inode file) s)
  | [], _, h => h
  | e :: drop, s, h => by
    rw [List.foldl_cons]
    obtain ⟨w, hw, hfile⟩ := List.mem_map.1 (h.linksLive file e (by simp))
    have hfind := findWatch_of_mem (h.nodup e) hw
    rw [hfile] at hfind
    have hnext := h.detach hw false
    rw [hfile, Function.update_self, List.erase_cons_head, Function.update_idem] at hnext
    unfold epollDropWatch
    rw [hfind]
    exact WatchInv.dropWatches drop _ hnext

/-- epoll_on_close_file keeps the invariant: every watch of the closed file is gone with its links -/
theorem SysInv.onClose {s : EpollSys} (h : SysInv inode s) (fdRef : Int) :
    SysInv inode (epollOnCloseFile inode s file fdRef) := by
  unfold epollOnCloseFile
  split
  · exact h
  simp only
  split
  · exact h
  have hstart : WatchInv inode (Function.update s.epollWatches file (s.epollWatches file))
      { s with epollWatches := Function.update s.epollWatches file [] } := by
    rw [Function.update_eq_self]
    exact ⟨h.nodup, h.owned, h.armed, h.linked, h.queued, h.linksNodup, h.linksLive, h.queueNodup, h.queueLive⟩
  have := WatchInv.dropWatches _ _ hstart
  unfold SysInv
  rwa [foldl_epollDropWatch_epollWatches]

/-- epollfs_release keeps the invariant: the instance's watches are destroyed one by one -/
theorem SysInv.release {s : EpollSys} (h : SysInv inode s) (epoll : EpollId) :
    SysInv inode (epollfsRelease inode s epoll) := by
  unfold epollfsRelease
  suffices key : ∀ (l : List EpollWatch) (s : EpollSys), s.watches epoll = l → SysInv inode s →
      SysInv inode (l.foldl (fun s watch => epollWatchDestroy inode s epoll watch) s) from key _ s rfl h
  intro l
  induction l with
  | nil => exact fun _ _ h => h
  | cons w l ih =>
    intro s hl h
    have hw : w ∈ s.watches epoll := hl ▸ List.mem_cons_self
    refine ih _ ?_ (h.destroy hw)
    simp [epollWatchDestroy, hl]

end Close

/-! ## Steps that only see what is ready -/

/-- `w'` is `w` after steps that only look at what is ready: file, owner, wait entry, events, data and flags are
kept, and a disabled watch stays disabled -/
structure WatchEvolves (w w' : EpollWatch) : Prop where
  file : w'.file = w.file
  owner : w'.owner = w.owner
  waitEvents : w'.waitEvents = w.waitEvents
  waitArmed : w'.waitArmed = w.waitArmed
  events : w'.events = w.events
  data : w'.data = w.data
  edgeTriggered : w'.edgeTriggered = w.edgeTriggered
  oneShot : w'.oneShot = w.oneShot
  disabled : w.disabled = true → w'.disabled = true

section Evolves

theorem WatchEvolves.refl (w : EpollWatch) : WatchEvolves w w :=
  ⟨rfl, rfl, rfl, rfl, rfl, rfl, rfl, rfl, id⟩

theorem WatchEvolves.trans {w₁ w₂ w₃ : EpollWatch} (h₁ : WatchEvolves w₁ w₂) (h₂ : WatchEvolves w₂ w₃) :
    WatchEvolves w₁ w₃ :=
  ⟨h₂.file.trans h₁.file, h₂.owner.trans h₁.owner, h₂.waitEvents.trans h₁.waitEvents,
    h₂.waitArmed.trans h₁.waitArmed, h₂.events.trans h₁.events, h₂.data.trans h₁.data,
    h₂.edgeTriggered.trans h₁.edgeTriggered, h₂.oneShot.trans h₁.oneShot, fun h => h₂.disabled (h₁.disabled h)⟩

theorem forall₂_evolves_files {l l' : List EpollWatch} (h : List.Forall₂ WatchEvolves l l') :
    l'.map EpollWatch.file = l.map EpollWatch.file := by
  induction h with
  | nil => rfl
  | cons hw _ ih => rw [List.map_cons, List.map_cons, hw.file, ih]

theorem forall₂_evolves_mem {l l' : List EpollWatch} (h : List.Forall₂ WatchEvolves l l') {w' : EpollWatch}
    (hw' : w' ∈ l') : ∃ w ∈ l, WatchEvolves w w' := by
  induction h with
  | nil => exact absurd hw' List.not_mem_nil
  | @cons w v l l' hw _ ih =>
    rcases List.mem_cons.1 hw' with rfl | hrest
    · exact ⟨w, List.mem_cons_self, hw⟩
    · obtain ⟨u, hu, hev⟩ := ih hrest
      exact ⟨u, List.mem_cons_of_mem w hu, hev⟩

/-- steps that only look at what is ready keep the invariant -/
theorem WatchInv.of_evolves {inode : FileId → InodeId} {links : FileWatches} {s s' : EpollSys}
    (h : WatchInv inode links s) (hw : ∀ e, List.Forall₂ WatchEvolves (s.watches e) (s'.watches e))
    (hq : s'.pollWait = s.pollWait) : WatchInv inode links s' := by
  have hfiles : s'.watchFiles = s.watchFiles := funext fun e => forall₂_evolves_files (hw e)
  refine ⟨fun e => hfiles ▸ h.nodup e, fun e w' hw' => ?_, fun e w' hw' => ?_, fun e w' hw' => ?_,
    fun e w' hw' => ?_, h.linksNodup, fun f e he => hfiles ▸ h.linksLive f e he, fun i => hq ▸ h.queueNodup i,
    fun i e f hi => hfiles ▸ h.queueLive i e f (hq ▸ hi)⟩
  all_goals obtain ⟨w, hw, hev⟩ := forall₂_evolves_mem (hw e) hw'
  · rw [hev.owner]
    exact h.owned e w hw
  · rw [hev.waitArmed, hev.waitEvents, hev.events]
    exact h.armed e w hw
  · rw [hev.file]
    exact h.linked e w hw
  · rw [hq, hev.file]
    exact h.queued e w hw

end Evolves

/-! ## A collection -/

section Visit

variable {readyEvents : UInt32} {w : EpollWatch}

/-- a consuming visit, case by case -/
theorem epollCollectWatch_true (readyEvents : UInt32) (w : EpollWatch) :
    epollCollectWatch true readyEvents w =
      if w.edgeTriggered = true ∧ readyEvents &&& ~~~w.lastReadyEvents = 0 then
        (none, { w with lastReadyEvents := readyEvents })
      else if readyEvents ≠ 0 then
        (some ⟨readyEvents, w.data⟩, { w with lastReadyEvents := readyEvents, disabled := w.disabled || w.oneShot })
      else (none, { w with lastReadyEvents := 0 }) := by
  unfold epollCollectWatch
  by_cases hedge : w.edgeTriggered = true ∧ readyEvents &&& ~~~w.lastReadyEvents = 0
  · rw [if_pos hedge, if_pos hedge]
    rfl
  · rw [if_neg hedge, if_neg hedge]
    by_cases hne : readyEvents ≠ 0
    · rw [if_pos hne, if_pos hne]
      cases w.oneShot <;> simp
    · rw [if_neg hne, if_neg hne]
      rfl

/-- a visit that does not consume reports as a consuming one would and changes nothing -/
theorem epollCollectWatch_false (readyEvents : UInt32) (w : EpollWatch) :
    epollCollectWatch false readyEvents w = ((epollCollectWatch true readyEvents w).1, w) := by
  unfold epollCollectWatch
  by_cases hedge : w.edgeTriggered = true ∧ readyEvents &&& ~~~w.lastReadyEvents = 0
  · rw [if_pos hedge, if_pos hedge]
    rfl
  · rw [if_neg hedge, if_neg hedge]
    by_cases hne : readyEvents ≠ 0
    · rw [if_pos hne, if_pos hne]
      rfl
    · rw [if_neg hne, if_neg hne]
      rfl

/-- a visit sees the ready events and may disable a one-shot watch -/
theorem epollCollectWatch_evolves (consume : Bool) (readyEvents : UInt32) (w : EpollWatch) :
    WatchEvolves w (epollCollectWatch consume readyEvents w).2 := by
  cases consume
  · rw [epollCollectWatch_false]
    exact WatchEvolves.refl w
  · rw [epollCollectWatch_true]
    split_ifs <;> exact ⟨rfl, rfl, rfl, rfl, rfl, rfl, rfl, rfl, by simp +contextual⟩

end Visit

section Loop

variable {hasPoll : FileId → Bool} {ready : FileId → UInt32} {maxevents : Nat} {consume : Bool}

theorem epollCollectReadyLoop_evolves (ws : List EpollWatch) (events : List EpollEvent) :
    List.Forall₂ WatchEvolves ws (epollCollectReadyLoop hasPoll ready maxevents consume ws events).2 := by
  induction ws generalizing events with
  | nil => exact List.Forall₂.nil
  | cons browse rest ih =>
    rw [epollCollectReadyLoop_cons]
    split
    · exact List.Forall₂.cons (WatchEvolves.refl _) (ih _)
    split
    · exact List.forall₂_same.2 fun w _ => WatchEvolves.refl w
    · exact List.Forall₂.cons (epollCollectWatch_evolves _ _ _) (ih _)

end Loop

/-! ## What one epoll_ctl call does -/

section CtlCases

variable {inode : FileId → InodeId} {files : Files} {s : EpollSys} {epollFile : FileId} {op fd : Int}
  {event : Option EpollEvent}

/-- a call is refused and changes nothing, or returns 0 after an ADD of a file the instance does not watch, a DEL
or a MOD of the watch it has -/
theorem epollCtlFile_cases :
    ((epollCtlFile inode files s epollFile op fd event).1 ≠ 0 ∧ (epollCtlFile inode files s epollFile op fd event).2 = s) ∨
    ∃ epoll target, files.handle epollFile = some epoll ∧ files.fdTable fd = some target ∧
      (epollCtlFile inode files s epollFile op fd event).1 = 0 ∧
      ((∃ ev, op = EPOLL_CTL_ADD ∧ event = some ev ∧ findWatch s epoll target = none ∧
          (epollCtlFile inode files s epollFile op fd event).2 = epollCtlAdd inode s epoll target ev) ∨
        (∃ w, op = EPOLL_CTL_DEL ∧ findWatch s epoll target = some w ∧
          (epollCtlFile inode files s epollFile op fd event).2 = epollWatchDestroy inode s epoll w) ∨
        (∃ w ev, op = EPOLL_CTL_MOD ∧ event = some ev ∧ findWatch s epoll target = some w ∧
          (epollCtlFile inode files s epollFile op fd event).2 = epollCtlMod inode s epoll w ev)) := by
  generalize hr : epollCtlFile inode files s epollFile op fd event = r
  unfold epollCtlFile at hr
  split at hr
  · exact Or.inl (by rw [← hr]; exact ⟨by dsimp only; decide, rfl⟩)
  next hvalid =>
  split at hr
  · exact Or.inl (by rw [← hr]; exact ⟨by dsimp only; decide, rfl⟩)
  next hgiven =>
  split at hr
  · exact Or.inl (by rw [← hr]; exact ⟨by dsimp only; decide, rfl⟩)
  next epoll hepoll =>
  split at hr
  · exact Or.inl (by rw [← hr]; exact ⟨by dsimp only; decide, rfl⟩)
  next target htarget =>
  split at hr
  · exact Or.inl (by rw [← hr]; exact ⟨by dsimp only; decide, rfl⟩)
  split at hr
  · exact Or.inl (by rw [← hr]; exact ⟨by dsimp only; decide, rfl⟩)
  split at hr
  · exact Or.inl (by rw [← hr]; exact ⟨by dsimp only; decide, rfl⟩)
  split at hr
  · exact Or.inl (by rw [← hr]; exact ⟨by dsimp only; decide, rfl⟩)
  have hsome : op = EPOLL_CTL_ADD ∨ op = EPOLL_CTL_MOD → ∃ ev, event = some ev := by
    intro hop
    cases event with
    | none => exact absurd ⟨hop, rfl⟩ hgiven
    | some ev => exact ⟨ev, rfl⟩
  split at hr
  · next hadd =>
    dsimp only at hr
    split at hr
    · exact Or.inl (by rw [← hr]; exact ⟨by dsimp only; decide, rfl⟩)
    · next hnone =>
      obtain ⟨ev, rfl⟩ := hsome (Or.inl hadd)
      exact Or.inr ⟨epoll, target, hepoll, htarget, by rw [← hr], Or.inl ⟨ev, hadd, rfl, hnone, by rw [← hr]; rfl⟩⟩
  split at hr
  · next hdel =>
    dsimp only at hr
    split at hr
    · exact Or.inl (by rw [← hr]; exact ⟨by dsimp only; decide, rfl⟩)
    · next w hfind =>
      exact Or.inr ⟨epoll, target, hepoll, htarget, by rw [← hr], Or.inr (Or.inl ⟨w, hdel, hfind, by rw [← hr]⟩)⟩
  · next hadd hdel =>
    have hmod : op = EPOLL_CTL_MOD := by
      by_contra hmod
      exact hvalid ⟨hadd, hdel, hmod⟩
    dsimp only at hr
    split at hr
    · exact Or.inl (by rw [← hr]; exact ⟨by dsimp only; decide, rfl⟩)
    · next w hfind =>
      obtain ⟨ev, rfl⟩ := hsome (Or.inr hmod)
      exact Or.inr ⟨epoll, target, hepoll, htarget, by rw [← hr],
        Or.inr (Or.inr ⟨w, ev, hmod, rfl, hfind, by rw [← hr]; rfl⟩)⟩

end CtlCases

/-! ## Every step keeps the invariant -/

section Step

variable {inode : FileId → InodeId} {hasPoll : FileId → Bool} {s : EpollSys}

theorem SysInv.ctl (h : SysInv inode s) (files : Files) (epollFile : FileId) (op fd : Int)
    (event : Option EpollEvent) : SysInv inode (epollCtlFile inode files s epollFile op fd event).2 := by
  rcases @epollCtlFile_cases inode files s epollFile op fd event with ⟨-, hsame⟩ |
      ⟨epoll, target, -, -, -, ⟨ev, -, -, hnone, hnew⟩ | ⟨w, -, hfind, hnew⟩ | ⟨w, ev, -, -, hfind, hnew⟩⟩
  · rw [hsame]
    exact h
  · rw [hnew]
    exact h.add ((findWatch_none_iff).1 hnone) ev
  · rw [hnew]
    exact h.destroy (findWatch_some hfind).1
  · rw [hnew]
    exact h.mod (findWatch_some hfind).1 ev

theorem epollCollectReadyLocked_evolves (epoll : EpollId) (maxevents : Nat) (consume : Bool) (e : EpollId) :
    List.Forall₂ WatchEvolves (s.watches e) ((epollCollectReadyLocked hasPoll s epoll maxevents consume).2.watches e) := by
  by_cases he : e = epoll
  · subst he
    simpa [epollCollectReadyLocked] using epollCollectReadyLoop_evolves (s.watches e) []
  · simpa [epollCollectReadyLocked, he] using List.forall₂_same.2 fun w _ => WatchEvolves.refl w

theorem epollWatchWake_evolves (w : EpollWatch) : WatchEvolves w (epollWatchWake w) := by
  unfold epollWatchWake
  split
  · exact ⟨rfl, rfl, rfl, rfl, rfl, rfl, rfl, rfl, id⟩
  · exact WatchEvolves.refl w

theorem vfsPollNotifyInode_evolves (i : InodeId) (events : UInt32) (e : EpollId) :
    List.Forall₂ WatchEvolves (s.watches e) ((vfsPollNotifyInode s i events).watches e) := by
  simp only [vfsPollNotifyInode]
  rw [List.forall₂_map_right_iff]
  refine List.forall₂_same.2 fun w _ => ?_
  split
  · exact epollWatchWake_evolves w
  · exact WatchEvolves.refl w

/-- a pass of epoll_wait fails and changes nothing, or is a consuming collection -/
theorem doEpollWaitPass_cases (files : Files) (epollFile : FileId) (maxevents : Int) :
    (doEpollWaitPass hasPoll files s epollFile maxevents).2 = s ∨
      ∃ epoll, (doEpollWaitPass hasPoll files s epollFile maxevents).2 =
        (epollCollectReadyLocked hasPoll s epoll maxevents.toNat true).2 := by
  unfold doEpollWaitPass
  split
  · exact Or.inl rfl
  split
  · exact Or.inl rfl
  · exact Or.inr ⟨_, rfl⟩

theorem SysInv.step (h : SysInv inode s) : ∀ op, SysInv inode (sysStep inode hasPoll s op)
  | .ctl files epollFile op fd event => h.ctl files epollFile op fd event
  | .onClose _ fdRef => h.onClose fdRef
  | .release epoll => h.release epoll
  | .setReady _ _ => h.of_evolves (fun _ => List.forall₂_same.2 fun w _ => WatchEvolves.refl w) rfl
  | .notify i events => h.of_evolves (vfsPollNotifyInode_evolves i events) rfl
  | .wait files epollFile maxevents => by
    rcases @doEpollWaitPass_cases hasPoll s files epollFile maxevents with hsame | ⟨epoll, hpass⟩
    · show SysInv inode (doEpollWaitPass hasPoll files s epollFile maxevents).2
      rw [hsame]
      exact h
    · show SysInv inode (doEpollWaitPass hasPoll files s epollFile maxevents).2
      rw [hpass]
      exact h.of_evolves (epollCollectReadyLocked_evolves epoll _ true) rfl

/-- every run keeps the invariant -/
theorem sysRun_inv (h : SysInv inode s) (ops : List EpollOp) : SysInv inode (sysRun inode hasPoll s ops) := by
  induction ops generalizing s with
  | nil => exact h
  | cons op ops ih => exact ih (h.step op)

end Step

end Naos.Epoll.Watch
