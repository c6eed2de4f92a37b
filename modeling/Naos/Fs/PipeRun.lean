/-
Runs of the pipe system.

A run is any interleaving of the four critical sections of `fs/pipe.c` on any pipes (`run`). Each step is taken to
the lemma of its section in `PipeFifo`, and the run lemmas follow by induction on the operations, with the legality
of each step read from `LegalRun`.

Results:
- `step_sysOk_conserves`, `run_sysOk`: every legal step, and so every legal run, keeps `SysOk`;
- `run_conserves`: for every pipe, what it queued before followed by what a run accepted into it is what the run
  handed out of it followed by what it queues after;
- `run_removed_prefix`: from an empty pipe, the bytes a run hands out are a prefix of the bytes it accepted;
- `step_splicePipe_moves`: a move between two pipes hands the front of the source's queue to the back of the
  destination's;
- `SysOk.merge_exclusive`: a descriptor a write may merge into owns its page, which no other descriptor names and
  no cache holds;
- `pipes_fifo`: all of it, over every legal run from a state that keeps the invariant;
- `merge_not_last`: a descriptor other than the last may still be marked `can_merge`: a page appended after a
  short write leaves the write's descriptor mergeable.
-/
import Mathlib
import Naos.Fs.PipeFifo

namespace Naos.Pipe

/-! ## Steps and runs -/

section Run

variable {s : Sys}

/-- each critical section keeps the invariant and conserves the bytes of every pipe -/
theorem step_sysOk_conserves (hs : SysOk s) {op : PipeOp} (hl : LegalOp s op) :
    SysOk (step s op).sys ∧ Conserves s (step s op) := by
  cases op with
  | read i size => exact ⟨(step_read hs size).1, (step_read hs size).2.1⟩
  | write i data atomic frames => exact step_write hs data atomic hl
  | spliceFromUser i pa want refOk => exact step_spliceFromUser hs pa want refOk hl
  | splicePipe src dst count refOk => exact step_splicePipe hs src dst count refOk

theorem run_sysOk {ops : List PipeOp} (hs : SysOk s) (hl : LegalRun s ops) : SysOk (run s ops) := by
  induction ops generalizing s with
  | nil => exact hs
  | cons op ops ih => exact ih (step_sysOk_conserves hs hl.1).1 hl.2

/-- the FIFO law over a run: the step's conservation, then the rest of the run's, joined at the state between -/
theorem run_conserves {ops : List PipeOp} (hs : SysOk s) (hl : LegalRun s ops) (i : Nat) :
    content s.mem (s.pipes i) ++ acceptedBy s ops i =
      removedBy s ops i ++ content (run s ops).mem ((run s ops).pipes i) := by
  induction ops generalizing s with
  | nil => simp [acceptedBy, removedBy, run]
  | cons op ops ih =>
    obtain ⟨hs', hstep⟩ := step_sysOk_conserves hs hl.1
    have hrest := ih hs' hl.2
    calc content s.mem (s.pipes i) ++ acceptedBy s (op :: ops) i
        = (content s.mem (s.pipes i) ++ (step s op).accepted i) ++ acceptedBy (step s op).sys ops i := by
          rw [acceptedBy, List.append_assoc]
      _ = (step s op).removed i ++
            (content (step s op).sys.mem ((step s op).sys.pipes i) ++ acceptedBy (step s op).sys ops i) := by
          rw [hstep i, List.append_assoc]
      _ = removedBy s (op :: ops) i ++ content (run s (op :: ops)).mem ((run s (op :: ops)).pipes i) := by
          rw [hrest, removedBy, run, List.append_assoc]

theorem bufs_eq_nil {p : PipeInfo} (h0 : p.nrBuffers = 0) : bufs p = [] := by
  rw [bufs_eq, h0]; rfl

/-- what a run hands out of a pipe that starts empty is a prefix of what it accepted -/
theorem run_removed_prefix {ops : List PipeOp} (hs : SysOk s) (hl : LegalRun s ops) {i : Nat}
    (h0 : (s.pipes i).nrBuffers = 0) : removedBy s ops i <+: acceptedBy s ops i := by
  have h := run_conserves hs hl i
  rw [content_eq_flatMap, bufs_eq_nil h0, List.flatMap_nil, List.nil_append] at h
  exact ⟨_, h.symm⟩

end Run

/-! ## Moves and mergeable descriptors -/

section Front

variable {s : Sys}

/-- the effect of a move between two pipes: the moved bytes leave `src` and join `dst` -/
theorem step_splicePipe_effect {src dst : Nat} (count : Nat) (refOk : Bool) (hne : src ≠ dst) :
    ∃ bytes, (step s (.splicePipe src dst count refOk)).removed = onlyAt src bytes ∧
      (step s (.splicePipe src dst count refOk)).accepted = onlyAt dst bytes := by
  simp only [step, if_neg hne]
  exact ⟨_, rfl, rfl⟩

/-- the bytes a move from `src` to `dst` hands over are a prefix of the source's queue, which loses them, and the
destination's queue gains them at its back -/
def MovesFront (s : Sys) (src dst count : Nat) (refOk : Bool) : Prop :=
  ∃ n, (step s (.splicePipe src dst count refOk)).removed src = (content s.mem (s.pipes src)).take n ∧
    (step s (.splicePipe src dst count refOk)).accepted dst = (step s (.splicePipe src dst count refOk)).removed src ∧
    content (step s (.splicePipe src dst count refOk)).sys.mem ((step s (.splicePipe src dst count refOk)).sys.pipes src) =
      (content s.mem (s.pipes src)).drop n ∧
    content (step s (.splicePipe src dst count refOk)).sys.mem ((step s (.splicePipe src dst count refOk)).sys.pipes dst) =
      content s.mem (s.pipes dst) ++ (step s (.splicePipe src dst count refOk)).removed src

/-- a move reads off the conservation of both pipes: the source's says the bytes are its front, the
destination's that they join its back -/
theorem step_splicePipe_moves (hs : SysOk s) {src dst count : Nat} {refOk : Bool} (hne : src ≠ dst) :
    MovesFront s src dst count refOk := by
  have hc := (step_splicePipe hs src dst count refOk).2
  obtain ⟨bytes, hrem, hacc⟩ := step_splicePipe_effect (s := s) count refOk hne
  have hsrc := hc src
  have hdst := hc dst
  rw [hrem, hacc, onlyAt_self, onlyAt_ne _ hne, List.append_nil] at hsrc
  rw [hrem, hacc, onlyAt_self, onlyAt_ne _ (Ne.symm hne), List.nil_append] at hdst
  refine ⟨bytes.length, ?_, ?_, ?_, ?_⟩
  · rw [hrem, onlyAt_self, hsrc, List.take_left]
  · rw [hrem, hacc, onlyAt_self, onlyAt_self]
  · rw [hsrc, List.drop_left]
  · rw [hrem, onlyAt_self, hdst]

/-- a descriptor that may be merged into owns its page: it is the page's only descriptor in every pipe, and no
cache holds the page -/
theorem SysOk.merge_exclusive (hs : SysOk s) {i : Nat} {b : PipeBuffer} (hb : b ∈ bufs (s.pipes i))
    (hm : b.canMerge = true) :
    b.pageRef = false ∧ (∀ j, (pagesOf (bufs (s.pipes j))).count b.phys = if j = i then 1 else 0) ∧
      ∀ j, b.phys ∉ (s.pipes j).cachedPages := by
  have hown : b.pageRef = false := ((hs.ring_ok i).buf_ok b hb).merge_owned hm
  have hP : b.phys ∈ ownedOf (bufs (s.pipes i)) :=
    List.mem_map_of_mem (List.mem_filter.2 ⟨hb, by simp [hown]⟩)
  refine ⟨hown, fun j => hs.pages_ok.owned_excl i j _ hP, fun j hc => ?_⟩
  exact hs.pages_ok.cache_free j i _ hc (mem_pagesOf_of_mem_ownedOf hP)

end Front

/-! ## The pipes as FIFO queues -/

/-- what the pipes keep over a run: the invariant, the FIFO law for every pipe, reads and moves that take the
front of a queue, and mergeable descriptors whose pages are theirs alone -/
def FifoContract (s : Sys) (ops : List PipeOp) : Prop :=
  SysOk (run s ops) ∧
    (∀ i, content s.mem (s.pipes i) ++ acceptedBy s ops i =
      removedBy s ops i ++ content (run s ops).mem ((run s ops).pipes i)) ∧
    (∀ i, (s.pipes i).nrBuffers = 0 → removedBy s ops i <+: acceptedBy s ops i) ∧
    (∀ i b, b ∈ bufs ((run s ops).pipes i) → b.canMerge = true →
      b.pageRef = false ∧ (∀ j, (pagesOf (bufs ((run s ops).pipes j))).count b.phys = if j = i then 1 else 0) ∧
        ∀ j, b.phys ∉ ((run s ops).pipes j).cachedPages) ∧
    (∀ i size, (step (run s ops) (.read i size)).removed i =
      (content (run s ops).mem ((run s ops).pipes i)).take (min size ((run s ops).pipes i).ptr)) ∧
    (∀ src dst count refOk, src ≠ dst → MovesFront (run s ops) src dst count refOk)

theorem pipes_fifo {s : Sys} {ops : List PipeOp} (hs : SysOk s) (hl : LegalRun s ops) : FifoContract s ops := by
  have hr := run_sysOk hs hl
  exact ⟨hr, run_conserves hs hl, fun i h0 => run_removed_prefix hs hl h0, fun i b hb hm => hr.merge_exclusive hb hm,
    fun i size => (step_read hr size).2.2, fun src dst count refOk hne => step_splicePipe_moves hr hne⟩

/-- a system of empty pipes keeps the invariant -/
theorem SysOk.of_empty {s : Sys}
    (h : ∀ i, (s.pipes i).nrBuffers = 0 ∧ (s.pipes i).ptr = 0 ∧ (s.pipes i).head < PIPE_MAX_BUFFERS ∧
      (s.pipes i).cachedPages = []) : SysOk s := by
  refine ⟨fun i => ?_, ⟨fun i j P hP => ?_, fun i j P hP => ?_, fun i => ?_, fun i j P hP => ?_⟩⟩
  · obtain ⟨h0, hptr, hhead, -⟩ := h i
    refine ⟨hhead, by rw [h0]; exact Nat.zero_le _, by rw [bufs_eq_nil h0, hptr]; rfl, by rw [hptr]; exact Nat.zero_le _,
      by rw [bufs_eq_nil h0]; exact fun b hb => nomatch hb⟩
  · rw [bufs_eq_nil (h i).1] at hP; exact nomatch hP
  all_goals rw [(h i).2.2.2] at *
  · exact nomatch hP
  · exact List.nodup_nil
  · exact nomatch hP

/-- frames of a system of empty pipes are free when the allocator hands each out once -/
theorem FramesOk.of_empty {s : Sys} {frames : List Nat} (h : ∀ i, (s.pipes i).nrBuffers = 0 ∧ (s.pipes i).cachedPages = [])
    (hnd : frames.Nodup) : FramesOk s frames := by
  refine ⟨hnd, fun f _ j => ⟨?_, ?_⟩⟩
  · rw [bufs_eq_nil (h j).1]; exact List.not_mem_nil
  · rw [(h j).2]; exact List.not_mem_nil

/-- a fresh pipe with one reader and one writer -/
def openPipe : PipeInfo := { pipefsAllocInfo with writeFds := 1, readFds := 1 }

/-- every pipe fresh and open, memory zero -/
def openSys : Sys := ⟨fun _ => openPipe, fun _ _ => 0⟩

theorem openSys_empty (i : Nat) : (openSys.pipes i).nrBuffers = 0 ∧ (openSys.pipes i).ptr = 0 ∧
    (openSys.pipes i).head < PIPE_MAX_BUFFERS ∧ (openSys.pipes i).cachedPages = [] :=
  ⟨rfl, rfl, show 0 < PIPE_MAX_BUFFERS by decide, rfl⟩

/-- a write into pipe 0, a move of its byte into pipe 1, and a read of pipe 1 -/
theorem pipes_fifo_open :
    SysOk openSys ∧ LegalRun openSys [.write 0 [7] false [4096], .splicePipe 0 1 1 true, .read 1 1] ∧
      FifoContract openSys [.write 0 [7] false [4096], .splicePipe 0 1 1 true, .read 1 1] := by
  have hs := SysOk.of_empty openSys_empty
  have hl : LegalRun openSys [.write 0 [7] false [4096], .splicePipe 0 1 1 true, .read 1 1] :=
    ⟨FramesOk.of_empty (fun i => ⟨(openSys_empty i).1, (openSys_empty i).2.2.2⟩) (List.nodup_singleton _),
      trivial, trivial, trivial⟩
  exact ⟨hs, hl, pipes_fifo hs hl⟩

/-- A one-byte write leaves a descriptor that may be merged into; a user page spliced in after it becomes the last
descriptor, and the write's descriptor, now first of two, is still marked `can_merge`. The run is legal: the frame
is free and the user page is no pipe's. -/
theorem merge_not_last :
    SysOk openSys ∧ LegalRun openSys [.write 0 [7] false [4096], .spliceFromUser 0 8192 1 true] ∧
      (bufs ((run openSys [.write 0 [7] false [4096], .spliceFromUser 0 8192 1 true]).pipes 0)).map
        PipeBuffer.canMerge = [true, false] := by
  refine ⟨SysOk.of_empty openSys_empty, ⟨FramesOk.of_empty (fun i => ⟨(openSys_empty i).1, (openSys_empty i).2.2.2⟩)
    (List.nodup_singleton _), fun j => ?_, trivial⟩, by decide⟩
  by_cases hj : j = 0
  · subst hj; decide
  · have hpipe : (step openSys (.write 0 [7] false [4096])).sys.pipes j = openPipe := Function.update_of_ne hj ..
    rw [hpipe]
    decide

end Naos.Pipe
