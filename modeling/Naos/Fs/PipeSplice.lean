/-
pipefs_splice_to of fs/pipe.c, which splices a pipe into a file that is no pipe, running beside the other critical
sections of the pipe system.

A pass of its loop is two critical sections with the write to the output file between them, outside the lock. The
first copies the front descriptor, cut to the bytes still to move (`spliceToSnapLocked`); the write then sends the
bytes of that copy to the file, which takes `wr` of them; the second consumes `wr` bytes from whatever descriptor is
at the front by then (`spliceToConsumeLocked`). The thread that runs the splice is a state machine (`SpliceAt`):
before a pass, in the window between the two sections of a pass with its copy, or returned. A system run interleaves
its two steps with any critical sections of the other threads (`PipeOp`, the steps of `Pipe`), and counts the bytes
those hand out of the pipe (`got`) and the bytes the output file receives (`out`).

Results:
- `splice_window_duplicates_and_loses`: a read of the same pipe in the window hands out the bytes the splice is
  writing, and the splice then consumes two bytes nobody received.
-/
import Mathlib
import Naos.Fs.PipeRun

namespace Naos.Pipe

/-! ## The model -/

def EWOULDBLOCK : Int := 11

/-- how the first critical section of a pass of pipefs_splice_to ends -/
inductive SnapPass
  /-- the copy of the front descriptor, cut to the chunk, with `page_ref` set -/
  | snapped (b : PipeBuffer)
  /-- an empty pipe: the splice stops when there is no writer left or it has moved bytes, and waits otherwise -/
  | empty (closed : Bool)
  /-- address_ref refused the page -/
  | efault
deriving Repr, DecidableEq

/-- the first critical section of a pass of pipefs_splice_to, with `remaining` bytes still to move; `refOk` is the
answer of address_ref -/
def spliceToSnapLocked (pipe : PipeInfo) (remaining : Nat) (refOk : Bool) : SnapPass :=
  if pipe.ptr = 0 then .empty (decide (pipe.writeFds = 0))
  else
    let b := pipe.buffers pipe.head
    let chunk := min remaining b.len
    let b := { b with len := u16 chunk }
    if !refOk then .efault else .snapped { b with pageRef := true }

/-- the second critical section of a pass: `wr` bytes consumed from the descriptor at the front now -/
def spliceToConsumeLocked (pipe : PipeInfo) (wr : Nat) : PipeInfo := pipefsBufferConsumeLocked pipe wr

/-- where the thread that runs pipefs_splice_to is, with the bytes it has moved -/
inductive SpliceAt
  | pass (moved : Nat)
  /-- between the two critical sections of a pass, with the copy of the front descriptor -/
  | window (moved : Nat) (b : PipeBuffer)
  | returned (ret : Int)
deriving Repr, DecidableEq

/-- the pipes, the bytes the output file received, the splicing thread, and the bytes the other threads' critical
sections handed out of the spliced pipe -/
structure SpliceSys where
  sys : Sys
  out : List UInt8
  pc : SpliceAt
  got : List UInt8

/-- one step of a run: a critical section of another thread, the first section of a splice pass, or the write to
the output file (which took `wr` bytes) followed by the second section -/
inductive SpliceEvent
  | other (op : PipeOp)
  | snap (refOk : Bool)
  | write (wr : Int)

/-- one step of a run of pipefs_splice_to on pipe `i`, for `count` bytes -/
def spliceStep (i count : Nat) (nonblock : Bool) (t : SpliceSys) : SpliceEvent → SpliceSys
  | .other op => { t with sys := (step t.sys op).sys, got := t.got ++ (step t.sys op).removed i }
  | .snap refOk =>
    match t.pc with
    | .pass moved =>
      if moved < count then
        match spliceToSnapLocked (t.sys.pipes i) (count - moved) refOk with
        | .snapped b => { t with pc := .window moved b }
        | .empty closed =>
          if closed ∨ moved ≠ 0 then { t with pc := .returned moved }
          -- pipefs_wait_readable: -EWOULDBLOCK, or a wait after which the loop runs again
          else if nonblock then { t with pc := .returned (-EWOULDBLOCK) } else t
        | .efault => { t with pc := .returned (if moved ≠ 0 then moved else -EFAULT) }
      else { t with pc := .returned moved }
    | _ => t
  | .write wr =>
    match t.pc with
    | .window moved b =>
      if wr ≤ 0 then { t with pc := .returned (if wr < 0 ∧ moved = 0 then wr else moved) }
      else
        let out := t.out ++ memRead t.sys.mem b.phys b.offset wr.toNat
        let sys := t.sys.setPipe i (spliceToConsumeLocked (t.sys.pipes i) wr.toNat)
        let moved := moved + wr.toNat
        { t with sys := sys, out := out, pc := if wr.toNat < b.len then .returned moved else .pass moved }
    | _ => t

/-- a run of the splice beside the other threads -/
def spliceRun (i count : Nat) (nonblock : Bool) : SpliceSys → List SpliceEvent → SpliceSys
  | t, [] => t
  | t, e :: es => spliceRun i count nonblock (spliceStep i count nonblock t e) es

/-! ## A reader in the window -/

/-- four bytes written into pipe 0 of a fresh system, a splice of two of them to a file, and a read of two bytes
of the pipe between the two sections of the splice's pass -/
def raceRun : List SpliceEvent :=
  [.other (.write 0 [97, 98, 99, 100] false [4096]), .snap true, .other (.read 0 2), .write 2]

/-- the read and the file both receive the first two bytes, and the splice consumes the last two, which nobody
receives; the system started from keeps the invariant and the write is legal -/
theorem splice_window_duplicates_and_loses :
    SysOk openSys ∧ LegalOp openSys (.write 0 [97, 98, 99, 100] false [4096]) ∧
      (spliceRun 0 2 false ⟨openSys, [], .pass 0, []⟩ raceRun).got = [97, 98] ∧
      (spliceRun 0 2 false ⟨openSys, [], .pass 0, []⟩ raceRun).out = [97, 98] ∧
      content (spliceRun 0 2 false ⟨openSys, [], .pass 0, []⟩ raceRun).sys.mem
        ((spliceRun 0 2 false ⟨openSys, [], .pass 0, []⟩ raceRun).sys.pipes 0) = [] :=
  ⟨SysOk.of_empty openSys_empty,
    FramesOk.of_empty (fun i => ⟨(openSys_empty i).1, (openSys_empty i).2.2.2⟩) (List.nodup_singleton _),
    by decide, by decide, by decide⟩

end Naos.Pipe
