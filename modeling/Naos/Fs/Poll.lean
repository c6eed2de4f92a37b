/-
poll and select of fs/syscall/poll.c.

poll_scan_ready scans a pollfd array once: a negative fd gets no events, an fd that is not open gets POLLNVAL, and
an open file gets what its poll operation reports (vfs_poll_with_table), cut to the requested events with POLLERR,
POLLHUP, POLLNVAL and POLLRDHUP added. do_poll returns as soon as a scan finds an entry with events. select is a
translation layer over do_poll: its three bitmaps become pollfd entries (POLLIN for the read set, POLLOUT for the
write set, POLLPRI | POLLERR for the except set), and the output bitmaps are rebuilt from the entries' revents.

A file is what its poll operation reports, or `none` for a file without one (`-ENOTSUP`); the descriptor table is a
function from fd to file. An fd set is a function from fd to bit. One pass of the loop of do_poll is modelled
(`doPollPass`), with what it finds besides the files (`PassEnv`); a pass that scans again or sleeps is an outcome,
after which the loop scans whatever the files then report.

Results:
- `select_returns_zero_early`: an event of a read-set entry that select maps to no bit still ends do_poll, so select
  returns 0 at once for an fd that is not open or a file that only hung up; and poll reports POLLRDHUP to an entry
  that did not ask for it.
-/
import Mathlib
import Naos.Lib.BitFlags

namespace Naos.Poll

/-! ## The model -/

def EPOLLIN : Nat := 0x001
def EPOLLPRI : Nat := 0x002
def EPOLLOUT : Nat := 0x004
def EPOLLERR : Nat := 0x008
def EPOLLHUP : Nat := 0x010
def EPOLLNVAL : Nat := 0x020
def EPOLLRDNORM : Nat := 0x040
def EPOLLRDBAND : Nat := 0x080
def EPOLLWRNORM : Nat := 0x100
def EPOLLWRBAND : Nat := 0x200
def EPOLLMSG : Nat := 0x400
def EPOLLRDHUP : Nat := 0x2000

def POLLIN : Nat := 0x0001
def POLLPRI : Nat := 0x0002
def POLLOUT : Nat := 0x0004
def POLLERR : Nat := 0x0008
def POLLHUP : Nat := 0x0010
def POLLNVAL : Nat := 0x0020
def POLLRDNORM : Nat := 0x0040
def POLLRDBAND : Nat := 0x0080
def POLLWRNORM : Nat := 0x0100
def POLLWRBAND : Nat := 0x0200
def POLLMSG : Nat := 0x0400
def POLLRDHUP : Nat := 0x2000

def EINTR : Int := 4
def EINVAL : Int := 22
def ENOTSUP : Int := 95

def MAX_FD_NUM : Nat := 131072

/-- `if (from & a) to |= b`, the step of the two conversions -/
def mapBit (src : Nat) (a b : Nat) (dst : Nat) : Nat := if src &&& a ≠ 0 then dst ||| b else dst

/-- the tests of epoll_to_poll_comp, in its order -/
def epollToPollTable : List (Nat × Nat) :=
  [(EPOLLIN, POLLIN), (EPOLLRDNORM, POLLRDNORM), (EPOLLRDBAND, POLLRDBAND), (EPOLLOUT, POLLOUT),
    (EPOLLWRNORM, POLLWRNORM), (EPOLLWRBAND, POLLWRBAND), (EPOLLPRI, POLLPRI), (EPOLLMSG, POLLMSG),
    (EPOLLERR, POLLERR), (EPOLLHUP, POLLHUP), (EPOLLNVAL, POLLNVAL), (EPOLLRDHUP, POLLRDHUP)]

/-- epoll_to_poll_comp -/
def epollToPollComp (epollEvents : Nat) : Nat :=
  epollToPollTable.foldl (fun pollEvents ab => mapBit epollEvents ab.1 ab.2 pollEvents) 0

/-- the tests of poll_to_epoll_comp, in its order -/
def pollToEpollTable : List (Nat × Nat) :=
  [(POLLIN, EPOLLIN), (POLLRDNORM, EPOLLRDNORM), (POLLRDBAND, EPOLLRDBAND), (POLLOUT, EPOLLOUT),
    (POLLWRNORM, EPOLLWRNORM), (POLLWRBAND, EPOLLWRBAND), (POLLPRI, EPOLLPRI), (POLLMSG, EPOLLMSG),
    (POLLERR, EPOLLERR), (POLLHUP, EPOLLHUP), (POLLNVAL, EPOLLNVAL), (POLLRDHUP, EPOLLRDHUP)]

/-- poll_to_epoll_comp -/
def pollToEpollComp (pollEvents : Nat) : Nat :=
  pollToEpollTable.foldl (fun epollEvents ab => mapBit pollEvents ab.1 ab.2 epollEvents) 0

/-- vfs_poll_expand_events: EPOLLIN and EPOLLRDNORM stand for each other, and so do EPOLLOUT and EPOLLWRNORM -/
def vfsPollExpandEvents (events : Nat) : Nat :=
  let events := if events &&& EPOLLIN ≠ 0 then events ||| EPOLLRDNORM else events
  let events := if events &&& EPOLLRDNORM ≠ 0 then events ||| EPOLLIN else events
  let events := if events &&& EPOLLOUT ≠ 0 then events ||| EPOLLWRNORM else events
  if events &&& EPOLLWRNORM ≠ 0 then events ||| EPOLLOUT else events

/-- a file as poll sees it: what its poll operation reports, or `none` when it has none -/
abbrev PollFile := Option Nat

/-- vfs_poll_with_table -/
def vfsPollWithTable (file : PollFile) (events : Nat) : Int :=
  match file with
  | none => -ENOTSUP
  | some reported =>
    let requestEvents := events ||| EPOLLERR ||| EPOLLHUP ||| EPOLLNVAL
    (vfsPollExpandEvents reported &&& requestEvents : Nat)

/-- `struct pollfd` -/
structure PollFd where
  fd : Int
  events : Nat
  revents : Nat
deriving Repr, DecidableEq

/-- the revents poll_scan_ready gives one entry, for the descriptor table `files` -/
def scanEntry (files : Int → Option PollFile) (pfd : PollFd) : Nat :=
  if pfd.fd < 0 then 0
  else
    match files pfd.fd with
    | none => POLLNVAL
    | some file =>
      let queryEvents := pollToEpollComp pfd.events ||| EPOLLERR ||| EPOLLHUP ||| EPOLLNVAL ||| EPOLLRDHUP
      let polled := vfsPollWithTable file queryEvents
      let polled := if polled = -ENOTSUP then (EPOLLNVAL : Int) else if polled < 0 then 0 else polled
      epollToPollComp polled.toNat

/-- poll_scan_ready: the entries with their revents, and the number of entries with events -/
def pollScanReady (files : Int → Option PollFile) : List PollFd → List PollFd × Nat
  | [] => ([], 0)
  | pfd :: rest =>
    let revents := scanEntry files pfd
    let (rest, ready) := pollScanReady files rest
    ({ pfd with revents := revents } :: rest, if revents > 0 then ready + 1 else ready)

/-- what one pass of the loop of do_poll finds besides the files: the error its wait table recorded, whether a
signal is deliverable, whether the poll sequence of a file moved during the scan, and whether the deadline has
passed -/
structure PassEnv where
  tableError : Int
  signal : Bool
  seqChanged : Bool
  expired : Bool
deriving Repr, DecidableEq

/-- how one pass of the loop of do_poll ends -/
inductive PollPass
  /-- do_poll returns: the number of entries with events, 0 on a timeout, or an error -/
  | returns (res : Int)
  /-- the loop scans again at once -/
  | rescan
  /-- the task blocks until a wake-up or the deadline, and the loop goes on -/
  | sleeps
deriving Repr, DecidableEq

/-- one pass of the loop of do_poll, whose `timeout` is read as an `int64_t` -/
def doPollPass (files : Int → Option PollFile) (fds : List PollFd) (timeout : Int) (env : PassEnv) :
    List PollFd × PollPass :=
  let (fds, ready) := pollScanReady files fds
  if env.tableError ≠ 0 then (fds, .returns env.tableError)
  else if ready > 0 then (fds, .returns ready)
  else if env.signal then (fds, .returns (-EINTR))
  else if env.seqChanged then (fds, .rescan)
  -- a negative timeout is infinite
  else if 0 ≤ timeout ∧ (timeout = 0 ∨ env.expired) then (fds, .returns 0)
  else (fds, .sleeps)

/-- an fd set of select, as the bits of its bitmap -/
abbrev FdSet := Nat → Bool

def bitmapBytes (nfds : Nat) : Nat := (nfds + 7) / 8

/-- `struct timeval` -/
structure Timeval where
  tvSec : Int
  tvUsec : Int
deriving Repr, DecidableEq

/-- the millisecond timeout sys_select passes to do_poll: -1 for none -/
def selectTimeoutMs : Option Timeval → Int
  | none => -1
  | some tv => tv.tvSec * 1000 + (tv.tvUsec + 1000).tdiv 1000

/-- the loop of sys_select over one input set: a select_add of every fd below nfds whose bit is set -/
def selectAddSet (nfds : Nat) (set : Option FdSet) (events : Nat) : List PollFd :=
  match set with
  | none => []
  | some bits => ((List.range nfds).filter bits).map fun (i : Nat) => ⟨(i : Int), events, 0⟩

/-- the pollfd entries sys_select builds from its input sets, in its order -/
def selectEntries (nfds : Nat) (read write except : Option FdSet) : List PollFd :=
  selectAddSet nfds read POLLIN ++ selectAddSet nfds write POLLOUT ++ selectAddSet nfds except (POLLPRI ||| POLLERR)

/-- the output bitmaps of sys_select, and its count -/
structure SelectOut where
  read : Option FdSet
  write : Option FdSet
  except : Option FdSet
  verify : Nat

/-- an output set after the memset of its kernel copy and the copy back: the bits of the bitmap's bytes cleared,
and the bits beyond them as the user left them -/
def selectClear (nfds : Nat) (set : Option FdSet) : Option FdSet :=
  set.map fun bits j => if j < 8 * bitmapBytes nfds then false else bits j

/-- `if (kset && hit) { select_bitmap_set(kset, fd); verify++; }`, with the count it adds -/
def selectSetBit (set : Option FdSet) (hit : Bool) (fd : Int) : Option FdSet × Nat :=
  match set with
  | some bits => if hit then (some (Function.update bits fd.toNat true), 1) else (some bits, 0)
  | none => (none, 0)

def readHit (pfd : PollFd) : Bool := pfd.events &&& POLLIN ≠ 0 && pfd.revents &&& POLLIN ≠ 0

def writeHit (pfd : PollFd) : Bool := pfd.events &&& POLLOUT ≠ 0 && pfd.revents &&& POLLOUT ≠ 0

def exceptHit (pfd : PollFd) : Bool :=
  (pfd.events &&& POLLPRI ≠ 0 && pfd.revents &&& POLLPRI ≠ 0) ||
    (pfd.events &&& POLLERR ≠ 0 && pfd.revents &&& POLLERR ≠ 0)

/-- one entry of the collect loop of sys_select -/
def selectCollectStep (out : SelectOut) (pfd : PollFd) : SelectOut :=
  if pfd.revents = 0 then out
  else
    let r := selectSetBit out.read (readHit pfd) pfd.fd
    let w := selectSetBit out.write (writeHit pfd) pfd.fd
    let x := selectSetBit out.except (exceptHit pfd) pfd.fd
    ⟨r.1, w.1, x.1, out.verify + r.2 + w.2 + x.2⟩

/-- sys_select for one pass of do_poll: its return value and the three sets the user sees after it, or `none`
when the pass does not end do_poll -/
def sysSelect (files : Int → Option PollFile) (nfds : Int) (read write except : Option FdSet)
    (timeout : Option Timeval) (env : PassEnv) : Option (Int × Option FdSet × Option FdSet × Option FdSet) :=
  if nfds < 0 ∨ nfds ≥ MAX_FD_NUM then some (-EINVAL, read, write, except)
  else
    let n := nfds.toNat
    match doPollPass files (selectEntries n read write except) (selectTimeoutMs timeout) env with
    | (comp, .returns res) =>
      if res < 0 then some (res, read, write, except)
      else
        let out := comp.foldl selectCollectStep ⟨selectClear n read, selectClear n write, selectClear n except, 0⟩
        some (out.verify, out.read, out.write, out.except)
    | _ => none

/-- `struct timespec` -/
structure Timespec where
  tvSec : Int
  tvNsec : Int
deriving Repr, DecidableEq

/-- sys_pselect6, for a signal mask under which `env.signal` is read -/
def sysPselect6 (files : Int → Option PollFile) (nfds : Nat) (read write except : Option FdSet)
    (timeout : Option Timespec) (env : PassEnv) : Option (Int × Option FdSet × Option FdSet × Option FdSet) :=
  if nfds ≥ MAX_FD_NUM then some (-EINVAL, read, write, except)
  else
    let timeoutConv : Timeval :=
      match timeout with
      | some ts => ⟨ts.tvSec, (ts.tvNsec + 1000).tdiv 1000⟩
      | none => ⟨-1, -1⟩
    sysSelect files nfds read write except (some timeoutConv) env

/-! ## Where poll and select part from their interface

do_poll ends its loop at the first entry with events, and POLLNVAL, POLLHUP and POLLERR are events; select maps
them to no output bit. -/

/-- no file at any fd -/
def noFiles : Int → Option PollFile := fun _ => none

/-- fd 0 open on a file whose poll operation reports `events` -/
def fileAt0 (events : Nat) : Int → Option PollFile := fun fd => if fd = 0 then some (some events) else none

/-- a pass with no error, no signal, no change of a file, and its deadline not reached -/
def quietPass : PassEnv := ⟨0, false, false, false⟩

/-- select with no timeout on a read set of fd 0 returns 0 at once, with no bit set and no -EBADF, when fd 0 is not
open and when its file reports a hang-up; and poll reports POLLRDHUP to an entry that asked for POLLIN only -/
theorem select_returns_zero_early :
    (sysSelect noFiles 1 (some fun _ => true) none none none quietPass).map Prod.fst = some 0 ∧
      (sysSelect (fileAt0 EPOLLHUP) 1 (some fun _ => true) none none none quietPass).map Prod.fst = some 0 ∧
      ((sysSelect (fileAt0 EPOLLHUP) 1 (some fun _ => true) none none none quietPass).bind
        fun out => out.2.1).map (fun bits => bits 0) = some false ∧
      scanEntry (fileAt0 EPOLLRDHUP) ⟨0, POLLIN, 0⟩ = POLLRDHUP ∧ POLLIN &&& POLLRDHUP = 0 := by
  decide

end Naos.Poll
