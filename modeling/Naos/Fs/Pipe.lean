/-
Lean model of the pipe buffer ring of `fs/pipe.c`: the page descriptors a pipe queues, the helpers that push, pop,
consume and merge them, and the critical sections of the read, write and splice paths that call them.

A pipe (`pipe_info_t`) keeps a ring of `PIPE_MAX_BUFFERS` descriptors (`pipe_buffer_t`), `nr_buffers` of them live
from slot `head` on, and `ptr` bytes queued in all. A descriptor names a page, the window `[offset, offset + len)`
of it that holds queued bytes, whether the page is a reference to someone else's page (`page_ref`, taken by
`address_ref`) or the pipe's own, and whether a later write may append in place (`can_merge`). Owned pages come from
a small per-pipe stack of cached pages before the frame allocator.

The model keeps what these functions read and write. Memory is a function from page and offset to a byte, written
only by the pipe's own copies (`memcpy` into an owned page); the bytes a read hands back are returned as a list. The
array `cached_pages[0 .. nr_cached_pages)` is a list, top first. The frame allocator is the list of frames it will
hand out (an exhausted list is `alloc_frames` returning 0), `address_ref` is a Boolean the caller supplies, and
`address_release` and `free_frames` change nothing the ring can see. The loops of `pipefs_copy_out_locked` and
`pipefs_ring_write_locked` run on explicit fuel; `PipeRing` proves that the fuel given is enough.

The `uint16_t` fields and the `uint32_t` byte count keep their widths: assignments reduce modulo `2^16` and `2^32`,
and the unsigned differences `PIPE_BUFF - pipe->ptr` and `PAGE_SIZE - tail_end` wrap.

The locks are not modelled: each critical section is one function, and a system step runs one of them on the pipes
it names (`step`). The outcome of each step for its caller is an enumeration (`ReadPass`, `WritePass`, `UserPass`,
`MovePass`); what happens after the lock is dropped (notifying, waiting, signalling) changes no pipe.
-/
import Mathlib
import Naos.Lib.Ring

namespace Naos.Pipe

/-! ## Constants and machine arithmetic -/

def PAGE_SIZE : Nat := 4096
def PIPE_BUFF : Nat := 512 * 1024
def PIPE_MAX_BUFFERS : Nat := PIPE_BUFF / PAGE_SIZE + 32
def PIPE_PAGE_CACHE_MAX : Nat := 16

def EINVAL : Int := 22
def EFAULT : Int := 14

/-- an assignment to a `uint16_t` field -/
def u16 (n : Nat) : Nat := n % 2 ^ 16

/-- an assignment to a `uint32_t` field -/
def u32 (n : Nat) : Nat := n % 2 ^ 32

/-- the difference of two unsigned values of width `w` -/
def wrapSub (w a b : Nat) : Nat := (a + (2 ^ w - b % 2 ^ w)) % 2 ^ w

/-- `PADDING_DOWN(x, PAGE_SIZE)`: the page that holds address `x` -/
def paddingDown (x : Nat) : Nat := x / PAGE_SIZE * PAGE_SIZE

/-! ## Memory, descriptors and pipes -/

/-- physical memory, by page and offset in the page -/
abbrev Mem := Nat → Nat → UInt8

/-- the `len` bytes of page `phys` from offset `off` on -/
def memRead (mem : Mem) (phys off len : Nat) : List UInt8 := (List.range len).map fun k => mem phys (off + k)

/-- `memcpy` of `data` into page `phys` at offset `off` -/
def memWrite (mem : Mem) (phys off : Nat) (data : List UInt8) : Mem := fun p o =>
  if p = phys ∧ off ≤ o ∧ o < off + data.length then data.getD (o - off) 0 else mem p o

/-- `pipe_buffer_t` -/
structure PipeBuffer where
  phys : Nat
  offset : Nat
  len : Nat
  pageRef : Bool
  canMerge : Bool
deriving Repr, DecidableEq

/-- a descriptor after `memset(buf, 0, sizeof(*buf))` -/
def PipeBuffer.zero : PipeBuffer := ⟨0, 0, 0, false, false⟩

/-- the front of a descriptor consumed by `len` bytes -/
def PipeBuffer.shorten (buf : PipeBuffer) (len : Nat) : PipeBuffer :=
  { buf with offset := u16 (buf.offset + len), len := u16 (buf.len - len) }

/-- a descriptor after `chunk` bytes are appended in place -/
def PipeBuffer.grow (tail : PipeBuffer) (chunk : Nat) : PipeBuffer :=
  { tail with len := u16 (tail.len + u16 chunk), canMerge := decide (tail.offset + tail.len + chunk < PAGE_SIZE) }

/-- `pipe_info_t` with the ring of descriptors that follows it in memory -/
structure PipeInfo where
  ptr : Nat
  head : Nat
  nrBuffers : Nat
  cachedPages : List Nat
  writeFds : Int
  readFds : Int
  buffers : Nat → PipeBuffer

/-- `pipefs_alloc_info`: a `calloc`ed pipe, its descriptors zeroed -/
def pipefsAllocInfo : PipeInfo := ⟨0, 0, 0, [], 0, 0, fun _ => .zero⟩

/-- the bytes a descriptor queues -/
def bufBytes (mem : Mem) (b : PipeBuffer) : List UInt8 := memRead mem b.phys b.offset b.len

/-! ## Ring helpers -/

/-- `pipefs_buffer_index` -/
def pipefsBufferIndex (pipe : PipeInfo) (off : Nat) : Nat := (pipe.head + off) % PIPE_MAX_BUFFERS

/-- the live descriptors, front first -/
def bufs (pipe : PipeInfo) : List PipeBuffer := Ring.window pipe.buffers pipe.head PIPE_MAX_BUFFERS pipe.nrBuffers

/-- the bytes a pipe queues -/
def content (mem : Mem) (pipe : PipeInfo) : List UInt8 := (bufs pipe).flatMap (bufBytes mem)

/-- `pipefs_back_buffer`: the slot of the last live descriptor -/
def pipefsBackBuffer (pipe : PipeInfo) : Option Nat :=
  if pipe.nrBuffers = 0 then none else some (pipefsBufferIndex pipe (pipe.nrBuffers - 1))

/-- `pipefs_push_buffer_locked`: the pipe with one more descriptor, cleared, and its slot -/
def pipefsPushBufferLocked (pipe : PipeInfo) : Option (PipeInfo × Nat) :=
  if PIPE_MAX_BUFFERS ≤ pipe.nrBuffers then none
  else
    let idx := pipefsBufferIndex pipe pipe.nrBuffers
    some ({ pipe with nrBuffers := pipe.nrBuffers + 1, buffers := Function.update pipe.buffers idx .zero }, idx)

/-- `pipefs_alloc_owned_page_locked`: a cached page, else the allocator's next frame (0 when it has none) -/
def pipefsAllocOwnedPageLocked (pipe : PipeInfo) (frames : List Nat) : PipeInfo × List Nat × Nat :=
  match pipe.cachedPages with
  | phys :: rest => ({ pipe with cachedPages := rest }, frames, phys)
  | [] =>
    match frames with
    | phys :: rest => (pipe, rest, phys)
    | [] => (pipe, [], 0)

/-- `pipefs_release_owned_page_locked`: back on the cache when it has room, else `free_frames` -/
def pipefsReleaseOwnedPageLocked (pipe : PipeInfo) (phys : Nat) : PipeInfo :=
  if phys = 0 then pipe
  else if pipe.cachedPages.length < PIPE_PAGE_CACHE_MAX then { pipe with cachedPages := phys :: pipe.cachedPages }
  else pipe

/-- `pipefs_drop_buffer_locked` on slot `idx` -/
def pipefsDropBufferLocked (pipe : PipeInfo) (idx : Nat) : PipeInfo :=
  let buf := pipe.buffers idx
  -- a referenced page goes back through address_release, an owned one to the cache
  let pipe := if buf.pageRef then pipe else if buf.phys ≠ 0 then pipefsReleaseOwnedPageLocked pipe buf.phys else pipe
  { pipe with buffers := Function.update pipe.buffers idx .zero }

/-- `pipefs_pop_front_locked` -/
def pipefsPopFrontLocked (pipe : PipeInfo) : PipeInfo :=
  if pipe.nrBuffers = 0 then pipe
  else
    let pipe := pipefsDropBufferLocked pipe pipe.head
    let pipe := { pipe with head := (pipe.head + 1) % PIPE_MAX_BUFFERS, nrBuffers := pipe.nrBuffers - 1 }
    if pipe.nrBuffers = 0 then { pipe with head := 0 } else pipe

/-- `pipefs_buffer_consume_locked` on the front descriptor, the only one its callers pass -/
def pipefsBufferConsumeLocked (pipe : PipeInfo) (len : Nat) : PipeInfo :=
  if pipe.nrBuffers = 0 ∨ len = 0 then pipe
  else
    let buf := pipe.buffers pipe.head
    if buf.len ≤ len then pipefsPopFrontLocked { pipe with ptr := wrapSub 32 pipe.ptr buf.len }
    else
      { pipe with
        buffers := Function.update pipe.buffers pipe.head (buf.shorten len)
        ptr := wrapSub 32 pipe.ptr len }

/-! ## Copying out -/

/-- the loop of `pipefs_copy_out_locked`; the bytes copied so far stand for `copied` -/
def pipefsCopyOutLoop (mem : Mem) (len : Nat) : Nat → PipeInfo → List UInt8 → PipeInfo × List UInt8
  | 0, pipe, out => (pipe, out)
  | fuel + 1, pipe, out =>
    if out.length < len ∧ pipe.nrBuffers ≠ 0 then
      let buf := pipe.buffers pipe.head
      let chunk := min (len - out.length) buf.len
      pipefsCopyOutLoop mem len fuel (pipefsBufferConsumeLocked pipe chunk)
        (out ++ memRead mem buf.phys buf.offset chunk)
    else (pipe, out)

/-- `pipefs_copy_out_locked`: each pass either empties the front descriptor or ends the loop -/
def pipefsCopyOutLocked (mem : Mem) (pipe : PipeInfo) (len : Nat) : PipeInfo × List UInt8 :=
  pipefsCopyOutLoop mem len (pipe.nrBuffers + 1) pipe []

/-! ## Appending pages -/

/-- `pipefs_append_page_locked`: the pipe and the return value -/
def pipefsAppendPageLocked (pipe : PipeInfo) (phys offset len : Nat) (pageRef : Bool) : PipeInfo × Int :=
  if phys = 0 ∨ len = 0 ∨ PAGE_SIZE ≤ offset ∨ PAGE_SIZE - offset < len then (pipe, -EINVAL)
  else if PIPE_BUFF < pipe.ptr + len then (pipe, 0)
  else
    match pipefsPushBufferLocked pipe with
    | none => (pipe, 0)
    | some (pipe, idx) =>
      let buf : PipeBuffer :=
        { phys, offset := u16 offset, len := u16 len, pageRef,
          canMerge := !pageRef && offset == 0 && decide (len < PAGE_SIZE) }
      ({ pipe with buffers := Function.update pipe.buffers idx buf, ptr := u32 (pipe.ptr + len) }, len)

/-! ## Writing -/

/-- what the loop of `pipefs_ring_write_locked` carries: the pipe, memory, the frames the allocator has left and
the bytes copied so far -/
structure RingWrite where
  pipe : PipeInfo
  mem : Mem
  frames : List Nat
  copied : Nat

/-- the `can_merge` branch of the loop: `.inl` appends in place and continues, `.inr` falls through to a new page
(after clearing `can_merge` when the back page is full) -/
def ringWriteMerge (data : List UInt8) (len : Nat) (w : RingWrite) : RingWrite ⊕ RingWrite :=
  match pipefsBackBuffer w.pipe with
  | none => .inr w
  | some idx =>
    let tail := w.pipe.buffers idx
    if tail.canMerge then
      let tailEnd := tail.offset + tail.len
      let chunk := min (len - w.copied) (wrapSub 64 PAGE_SIZE tailEnd)
      if chunk ≠ 0 then
        .inl { w with
          mem := memWrite w.mem tail.phys tailEnd ((data.drop w.copied).take chunk)
          pipe := { w.pipe with
            buffers := Function.update w.pipe.buffers idx (tail.grow chunk)
            ptr := u32 (w.pipe.ptr + chunk) }
          copied := w.copied + chunk }
      else
        let tail := { tail with canMerge := false }
        .inr { w with pipe := { w.pipe with buffers := Function.update w.pipe.buffers idx tail } }
    else .inr w

/-- the new-page branch of the loop: `.inl` continues, `.inr` breaks -/
def ringWriteNewPage (data : List UInt8) (len : Nat) (w : RingWrite) : RingWrite ⊕ RingWrite :=
  let (pipe, frames, phys) := pipefsAllocOwnedPageLocked w.pipe w.frames
  let chunk := min (len - w.copied) PAGE_SIZE
  if phys = 0 then .inr { w with pipe, frames }
  else
    let mem := memWrite w.mem phys 0 ((data.drop w.copied).take chunk)
    let (pipe, ret) := pipefsAppendPageLocked pipe phys 0 chunk false
    if ret ≤ 0 then .inr { pipe := pipefsReleaseOwnedPageLocked pipe phys, mem, frames, copied := w.copied }
    else .inl { pipe, mem, frames, copied := w.copied + chunk }

/-- the loop of `pipefs_ring_write_locked` -/
def pipefsRingWriteLoop (data : List UInt8) (len : Nat) : Nat → RingWrite → RingWrite
  | 0, w => w
  | fuel + 1, w =>
    if w.copied < len then
      match ringWriteMerge data len w with
      | .inl w => pipefsRingWriteLoop data len fuel w
      | .inr w =>
        match ringWriteNewPage data len w with
        | .inl w => pipefsRingWriteLoop data len fuel w
        | .inr w => w
    else w

/-- `pipefs_ring_write_locked` of the first `len` bytes of `data`: every pass that goes on copies a byte at least -/
def pipefsRingWriteLocked (pipe : PipeInfo) (mem : Mem) (frames : List Nat) (data : List UInt8) (len : Nat) :
    RingWrite :=
  pipefsRingWriteLoop data len (len + 1) ⟨pipe, mem, frames, 0⟩

/-! ## Moving between pipes -/

/-- what `pipefs_move_one_locked` leaves: both pipes, its result and `*moved` -/
structure MoveOne where
  dst : PipeInfo
  src : PipeInfo
  ok : Bool
  moved : Nat

/-- `pipefs_move_one_locked`: shares the front page of `src` with a new descriptor at the back of `dst`; `refOk` is
the answer of `address_ref` -/
def pipefsMoveOneLocked (dst src : PipeInfo) (maxLen : Nat) (refOk : Bool) : MoveOne :=
  if src.nrBuffers = 0 ∨ PIPE_MAX_BUFFERS ≤ dst.nrBuffers then ⟨dst, src, false, 0⟩
  else if PIPE_BUFF ≤ dst.ptr then ⟨dst, src, false, 0⟩
  else
    let inb := src.buffers src.head
    let chunk := min (min maxLen inb.len) (PIPE_BUFF - dst.ptr)
    if chunk = 0 then ⟨dst, src, false, 0⟩
    else
      match pipefsPushBufferLocked dst with
      | none => ⟨dst, src, false, 0⟩
      | some (dst', idx) =>
        if !refOk then
          -- the new descriptor is cleared again and taken back
          ⟨{ dst' with buffers := Function.update dst'.buffers idx .zero, nrBuffers := dst'.nrBuffers - 1 },
            src, false, 0⟩
        else
          let out := { inb with len := u16 chunk, pageRef := true, canMerge := false }
          let dst := { dst' with buffers := Function.update dst'.buffers idx out, ptr := u32 (dst'.ptr + chunk) }
          let inb := { inb with pageRef := true, canMerge := false }
          let src := { src with buffers := Function.update src.buffers src.head inb }
          ⟨dst, pipefsBufferConsumeLocked src chunk, true, chunk⟩

/-! ## Critical sections -/

/-- how one locked pass of `pipe_read_inner` ends -/
inductive ReadPass
  | copied (bytes : List UInt8)
  /-- an empty pipe with no writer left: the read returns 0 -/
  | eof
  /-- an empty pipe with a writer: the read waits, or returns 0 or `-EWOULDBLOCK` when it may not -/
  | wait
deriving Repr, DecidableEq

/-- the critical section of `pipe_read_inner` -/
def pipeReadLocked (mem : Mem) (pipe : PipeInfo) (size : Nat) : PipeInfo × ReadPass :=
  if 0 < pipe.ptr then
    let r := pipefsCopyOutLocked mem pipe (min size pipe.ptr)
    (r.1, .copied r.2)
  else if pipe.writeFds = 0 then (pipe, .eof) else (pipe, .wait)

/-- how one locked pass of `pipe_write_inner` ends -/
inductive WritePass
  | written (n : Nat)
  /-- no reader: SIGPIPE and `-EPIPE` -/
  | epipe
  /-- the ring write copied nothing: `-ENOMEM` -/
  | enomem
  /-- not enough room: the write waits, or returns 0 or `-EWOULDBLOCK` -/
  | wait
deriving Repr, DecidableEq

/-- the critical section of `pipe_write_inner` for the bytes `data` (its `size` is their number) -/
def pipeWriteLocked (mem : Mem) (frames : List Nat) (pipe : PipeInfo) (data : List UInt8) (atomic : Bool) :
    RingWrite × WritePass :=
  if pipe.readFds = 0 then (⟨pipe, mem, frames, 0⟩, .epipe)
  else
    -- PIPE_BUFF - pipe->ptr is computed in unsigned int
    let available := wrapSub 32 PIPE_BUFF pipe.ptr
    if 0 < available ∧ (!atomic || decide (data.length ≤ available)) then
      let toWrite := if atomic then data.length else min data.length available
      let w := pipefsRingWriteLocked pipe mem frames data toWrite
      if w.copied = 0 then (w, .enomem) else (w, .written w.copied)
    else (⟨pipe, mem, frames, 0⟩, .wait)

/-- how one pass of the loop of `pipefs_splice_from_user` ends -/
inductive UserPass
  | appended (n : Nat)
  /-- the user address did not translate, or `address_ref` refused the page: `-EFAULT` -/
  | efault
  | epipe
  /-- the ring is full: return what was done, or wait -/
  | full
  /-- `pipefs_append_page_locked` refused: `ret < 0` is returned, `ret = 0` waits -/
  | refused (ret : Int)
deriving Repr, DecidableEq

/-- one pass of the loop of `pipefs_splice_from_user`: `pa` is the translation of the user address (0 for a fault),
`want` is `len - iov_off`, and `refOk` the answer of `address_ref` -/
def spliceFromUserLocked (pipe : PipeInfo) (pa want : Nat) (refOk : Bool) : PipeInfo × UserPass :=
  if pa = 0 then (pipe, .efault)
  else
    let pagePhys := paddingDown pa
    let pageOff := pa - pagePhys
    let chunk := min want (PAGE_SIZE - pageOff)
    if pipe.readFds = 0 then (pipe, .epipe)
    else if PIPE_BUFF ≤ pipe.ptr ∨ PIPE_MAX_BUFFERS ≤ pipe.nrBuffers then (pipe, .full)
    else
      let chunk := min chunk (PIPE_BUFF - pipe.ptr)
      if !refOk then (pipe, .efault)
      else
        let (pipe', ret) := pipefsAppendPageLocked pipe pagePhys pageOff chunk true
        if ret ≤ 0 then (pipe', .refused ret) else (pipe', .appended ret.toNat)

/-- how one pass of the loop of `pipefs_splice_pipe_to_pipe` ends -/
inductive MovePass
  | moved (n : Nat)
  /-- the two ends are one pipe: `-EINVAL` -/
  | einval
  | epipe
  /-- nothing to move: stop when the writers are gone, else wait -/
  | empty
  /-- no room in the destination: wait -/
  | full
  /-- the move failed: `-ENOMEM` -/
  | enomem
deriving Repr, DecidableEq

/-- the critical section of `pipefs_splice_pipe_to_pipe` under both locks, with `remaining` bytes still to move -/
def splicePipeLocked (ipipe opipe : PipeInfo) (remaining : Nat) (refOk : Bool) : PipeInfo × PipeInfo × MovePass :=
  if opipe.readFds = 0 then (ipipe, opipe, .epipe)
  else if ipipe.ptr = 0 then (ipipe, opipe, .empty)
  else if PIPE_BUFF ≤ opipe.ptr ∨ PIPE_MAX_BUFFERS ≤ opipe.nrBuffers then (ipipe, opipe, .full)
  else
    let r := pipefsMoveOneLocked opipe ipipe remaining refOk
    if r.ok then (r.src, r.dst, .moved r.moved) else (r.src, r.dst, .enomem)

/-! ## The system -/

/-- the pipes, by index, and memory -/
structure Sys where
  pipes : Nat → PipeInfo
  mem : Mem

/-- one critical section on the pipes it names -/
inductive PipeOp
  | read (i size : Nat)
  | write (i : Nat) (data : List UInt8) (atomic : Bool) (frames : List Nat)
  | spliceFromUser (i pa want : Nat) (refOk : Bool)
  | splicePipe (src dst count : Nat) (refOk : Bool)

/-- a step as its caller sees it: the new system and, for each pipe, the bytes it accepted and handed out -/
structure Effect where
  sys : Sys
  accepted : Nat → List UInt8
  removed : Nat → List UInt8

/-- the bytes of one pipe, and none of the others -/
def onlyAt (i : Nat) (bytes : List UInt8) : Nat → List UInt8 := Function.update (fun _ => []) i bytes

def Sys.setPipe (s : Sys) (i : Nat) (p : PipeInfo) : Sys := { s with pipes := Function.update s.pipes i p }

/-- one step of the system: a read hands out the bytes it copied, a write accepts the first bytes of its data (as
many as it returns), a user-page append accepts the bytes of the page window, and a move hands the moved bytes out of
one pipe and into the other -/
def step (s : Sys) : PipeOp → Effect
  | .read i size =>
    let r := pipeReadLocked s.mem (s.pipes i) size
    let out := match r.2 with | .copied bytes => bytes | _ => []
    ⟨s.setPipe i r.1, fun _ => [], onlyAt i out⟩
  | .write i data atomic frames =>
    let r := pipeWriteLocked s.mem frames (s.pipes i) data atomic
    let n := match r.2 with | .written n => n | _ => 0
    ⟨⟨Function.update s.pipes i r.1.pipe, r.1.mem⟩, onlyAt i (data.take n), fun _ => []⟩
  | .spliceFromUser i pa want refOk =>
    let r := spliceFromUserLocked (s.pipes i) pa want refOk
    let n := match r.2 with | .appended n => n | _ => 0
    ⟨s.setPipe i r.1, onlyAt i (memRead s.mem (paddingDown pa) (pa - paddingDown pa) n), fun _ => []⟩
  | .splicePipe src dst count refOk =>
    if src = dst then ⟨s, fun _ => [], fun _ => []⟩
    else
      let r := splicePipeLocked (s.pipes src) (s.pipes dst) count refOk
      let n := match r.2.2 with | .moved n => n | _ => 0
      -- the moved bytes are those of the new descriptor: the first n bytes of the front of src
      let inb := (s.pipes src).buffers (s.pipes src).head
      let bytes := memRead s.mem inb.phys inb.offset n
      ⟨(s.setPipe src r.1).setPipe dst r.2.1, onlyAt dst bytes, onlyAt src bytes⟩

/-- the system after a run -/
def run (s : Sys) : List PipeOp → Sys
  | [] => s
  | op :: ops => run (step s op).sys ops

/-- the bytes a run accepted into pipe `i`, in order -/
def acceptedBy (s : Sys) : List PipeOp → Nat → List UInt8
  | [], _ => []
  | op :: ops, i => (step s op).accepted i ++ acceptedBy (step s op).sys ops i

/-- the bytes a run handed out of pipe `i`, in order -/
def removedBy (s : Sys) : List PipeOp → Nat → List UInt8
  | [], _ => []
  | op :: ops, i => (step s op).removed i ++ removedBy (step s op).sys ops i

end Naos.Pipe
