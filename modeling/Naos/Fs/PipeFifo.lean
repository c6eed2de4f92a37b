/-
The pipes as a system of FIFO byte queues.

A system step runs one critical section of `fs/pipe.c` (`step`): a read, a write, one pass of a user-page splice, or
one pass of a pipe-to-pipe splice. The invariant `SysOk` is the ring invariant of every pipe together with the page
discipline of `PipePages`. The frame allocator and the user's page tables are the environment: `LegalOp` asks that
the frames the allocator hands out are free and that a spliced user page is not one a pipe owns or caches.

Results:
- `pipefsRingWriteLoop_inv`: every pass of the ring-write loop keeps the write's invariant `WriteInv`;
- `step_read`: a read keeps `SysOk`, conserves, and hands out the front of the queue;
- `step_write`, `step_spliceFromUser`, `step_splicePipe`: a write, a pass of a user-page splice and a pass of a
  pipe-to-pipe splice keep `SysOk` and conserve (`Conserves`): for every pipe, what it queued before followed by what
  the step accepted into it is what the step handed out of it followed by what it queues after.
-/
import Mathlib
import Naos.Fs.PipePages

namespace Naos.Pipe

/-! ## Facts that see only the pipes -/

theorem PagesOk.of_pipes {s s' : Sys} (h : s'.pipes = s.pipes) (hs : PagesOk s) : PagesOk s' := by
  obtain ⟨pipes, mem⟩ := s
  obtain ⟨pipes', mem'⟩ := s'
  cases h
  exact ⟨hs.owned_excl, hs.cache_free, hs.cache_nodup, hs.cache_excl⟩

theorem FreePage.of_pipes {s s' : Sys} {P : Nat} (h : s'.pipes = s.pipes) (hP : FreePage s P) : FreePage s' P := by
  intro j; rw [h]; exact hP j

/-! ## Consuming from the front -/

section Consume

variable {s : Sys} {i : Nat} {q : PipeInfo}

theorem pagesOf_shorten_cons (b : PipeBuffer) (k : Nat) (l : List PipeBuffer) :
    pagesOf (b.shorten k :: l) = pagesOf (b :: l) := rfl

theorem ownedOf_shorten_cons (b : PipeBuffer) (k : Nat) (l : List PipeBuffer) :
    ownedOf (b.shorten k :: l) = ownedOf (b :: l) := by
  simp [ownedOf_cons, PipeBuffer.shorten]

/-- consuming from the front keeps the page discipline: a shortened front keeps its page, a used-up one is popped -/
theorem PagesOk.consume (hs : PagesOk (s.setPipe i q)) (hq : RingOk q) (h0 : q.nrBuffers ≠ 0) {k : Nat}
    (hk : 0 < k) : PagesOk (s.setPipe i (pipefsBufferConsumeLocked q k)) := by
  have hcons := bufs_eq_cons hq.head_lt h0
  rw [show s.setPipe i (pipefsBufferConsumeLocked q k) = (s.setPipe i q).setPipe i (pipefsBufferConsumeLocked q k)
    from (setPipe_setPipe _).symm]
  rcases pipefsBufferConsumeLocked_cases h0 hk with ⟨_, heq⟩ | ⟨_, heq⟩
  · rw [heq]
    set q' : PipeInfo := { q with ptr := wrapSub 32 q.ptr (q.buffers q.head).len }
    have hbufs : bufs (pipefsPopFrontLocked q') = (bufs q).tail := pipefsPopFrontLocked_bufs hq.head_lt hq.nr_le h0
    have hp : bufs ((s.setPipe i q).pipes i) = q.buffers q.head :: (bufs q).tail := by
      rw [setPipe_pipes_self]; exact hcons
    apply hs.pop hp hbufs
    rw [setPipe_pipes_self, pipefsPopFrontLocked_cachedPages (p := q') h0, pipefsDropBufferLocked_eq]
    dsimp only
    split
    · rename_i hc
      exact Or.inr ⟨hc.1, rfl⟩
    · exact Or.inl rfl
  · rw [heq]
    have hbufs : bufs { q with
        buffers := Function.update q.buffers q.head ((q.buffers q.head).shorten k)
        ptr := wrapSub 32 q.ptr k } = (q.buffers q.head).shorten k :: (bufs q).tail :=
      bufs_set_head hq.head_lt hq.nr_le h0
    apply hs.shrink
    · rw [hbufs, setPipe_pipes_self, hcons, pagesOf_shorten_cons, List.tail_cons]
    · rw [hbufs, setPipe_pipes_self, hcons, ownedOf_shorten_cons, List.tail_cons]
    · rw [setPipe_pipes_self]

/-- a copy-out keeps the page discipline -/
theorem PagesOk.copyOut (hs : PagesOk (s.setPipe i q)) (hq : RingOk q) (len : Nat) :
    PagesOk (s.setPipe i (pipefsCopyOutLocked s.mem q len).1) := by
  have hstep : ∀ q' (out : List UInt8), RingOk q' → PagesOk (s.setPipe i q') → q'.nrBuffers ≠ 0 →
      out.length < len → PagesOk (s.setPipe i (pipefsBufferConsumeLocked q' (copyOutChunk len q' out))) := by
    intro q' out hq' hs' h0 hlt
    have hfront : BufOk (q'.buffers q'.head) :=
      hq'.buf_ok _ (by rw [bufs_eq_cons hq'.head_lt h0]; exact List.mem_cons_self)
    exact hs'.consume hq' h0 (by unfold copyOutChunk; have := hfront.len_pos; omega)
  exact (pipefsCopyOutLoop_rule s.mem len (fun q' _ => PagesOk (s.setPipe i q'))
    (fun q' out hq' hs' h0 hlt => hstep q' out hq' hs' h0 hlt) (q.nrBuffers + 1) q [] hq hs
    (Or.inl (by omega))).2.1

end Consume

/-! ## One pass of the ring write -/

section WritePass

variable {data : List UInt8} {len : Nat} {w w' : RingWrite}

theorem pipefsBackBuffer_eq_some {p : PipeInfo} {idx : Nat} (h : pipefsBackBuffer p = some idx) :
    p.nrBuffers ≠ 0 ∧ idx = pipefsBufferIndex p (p.nrBuffers - 1) := by
  unfold pipefsBackBuffer at h
  split at h
  · cases h
  · exact ⟨by assumption, (Option.some.inj h).symm⟩

/-- the bytes one in-place merge into slot `idx` copies -/
def mergeChunk (len : Nat) (w : RingWrite) (idx : Nat) : Nat :=
  min (len - w.copied) (wrapSub 64 PAGE_SIZE ((w.pipe.buffers idx).offset + (w.pipe.buffers idx).len))

/-- the merge branch when it copies -/
theorem ringWriteMerge_inl (h : ringWriteMerge data len w = .inl w') :
    ∃ idx, pipefsBackBuffer w.pipe = some idx ∧ (w.pipe.buffers idx).canMerge = true ∧ mergeChunk len w idx ≠ 0 ∧
      w' = { w with
        mem := memWrite w.mem (w.pipe.buffers idx).phys ((w.pipe.buffers idx).offset + (w.pipe.buffers idx).len)
          ((data.drop w.copied).take (mergeChunk len w idx))
        pipe := { w.pipe with
          buffers := Function.update w.pipe.buffers idx ((w.pipe.buffers idx).grow (mergeChunk len w idx))
          ptr := u32 (w.pipe.ptr + mergeChunk len w idx) }
        copied := w.copied + mergeChunk len w idx } := by
  unfold ringWriteMerge at h
  split at h
  · cases h
  · rename_i idx hidx
    dsimp only at h
    split at h
    · split at h
      · exact ⟨idx, hidx, by assumption, by assumption, (Sum.inl.inj h).symm⟩
      · cases h
    · cases h

/-- the merge branch when it falls through to a new page -/
theorem ringWriteMerge_inr (h : ringWriteMerge data len w = .inr w') :
    w' = w ∨ ∃ idx, pipefsBackBuffer w.pipe = some idx ∧ (w.pipe.buffers idx).canMerge = true ∧
      mergeChunk len w idx = 0 ∧
      w' = { w with pipe := { w.pipe with
        buffers := Function.update w.pipe.buffers idx { w.pipe.buffers idx with canMerge := false } } } := by
  unfold ringWriteMerge at h
  split at h
  · exact Or.inl (Sum.inr.inj h).symm
  · rename_i idx hidx
    dsimp only at h
    split at h
    · split at h
      · cases h
      · rename_i hm hc
        exact Or.inr ⟨idx, hidx, hm, not_not.1 hc, (Sum.inr.inj h).symm⟩
    · exact Or.inl (Sum.inr.inj h).symm

/-- the bytes one pass copies into a new page -/
def newChunk (len : Nat) (w : RingWrite) : Nat := min (len - w.copied) PAGE_SIZE

/-- the new-page branch, with the allocation and the append taken apart -/
theorem ringWriteNewPage_eq : ringWriteNewPage data len w =
    if (pipefsAllocOwnedPageLocked w.pipe w.frames).2.2 = 0 then
      .inr { w with pipe := (pipefsAllocOwnedPageLocked w.pipe w.frames).1,
                    frames := (pipefsAllocOwnedPageLocked w.pipe w.frames).2.1 }
    else if (pipefsAppendPageLocked (pipefsAllocOwnedPageLocked w.pipe w.frames).1
        (pipefsAllocOwnedPageLocked w.pipe w.frames).2.2 0 (newChunk len w) false).2 ≤ 0 then
      .inr ⟨pipefsReleaseOwnedPageLocked (pipefsAppendPageLocked (pipefsAllocOwnedPageLocked w.pipe w.frames).1
          (pipefsAllocOwnedPageLocked w.pipe w.frames).2.2 0 (newChunk len w) false).1
          (pipefsAllocOwnedPageLocked w.pipe w.frames).2.2,
        memWrite w.mem (pipefsAllocOwnedPageLocked w.pipe w.frames).2.2 0 ((data.drop w.copied).take (newChunk len w)),
        (pipefsAllocOwnedPageLocked w.pipe w.frames).2.1, w.copied⟩
    else
      .inl ⟨(pipefsAppendPageLocked (pipefsAllocOwnedPageLocked w.pipe w.frames).1
          (pipefsAllocOwnedPageLocked w.pipe w.frames).2.2 0 (newChunk len w) false).1,
        memWrite w.mem (pipefsAllocOwnedPageLocked w.pipe w.frames).2.2 0 ((data.drop w.copied).take (newChunk len w)),
        (pipefsAllocOwnedPageLocked w.pipe w.frames).2.1, w.copied + newChunk len w⟩ := by
  unfold ringWriteNewPage newChunk
  rcases pipefsAllocOwnedPageLocked w.pipe w.frames with ⟨p1, f1, P⟩
  dsimp only

/-- where `pipefs_alloc_owned_page_locked` takes its page from -/
theorem pipefsAllocOwnedPageLocked_cases (p : PipeInfo) (frames : List Nat) :
    (∃ P rest, p.cachedPages = P :: rest ∧
        pipefsAllocOwnedPageLocked p frames = ({ p with cachedPages := rest }, frames, P)) ∨
      (p.cachedPages = [] ∧ ∃ f fs, frames = f :: fs ∧ pipefsAllocOwnedPageLocked p frames = (p, fs, f)) ∨
      (p.cachedPages = [] ∧ frames = [] ∧ pipefsAllocOwnedPageLocked p frames = (p, [], 0)) := by
  unfold pipefsAllocOwnedPageLocked
  rcases hc : p.cachedPages with _ | ⟨P, rest⟩
  · rcases frames with _ | ⟨f, fs⟩
    · exact Or.inr (Or.inr ⟨rfl, rfl, rfl⟩)
    · exact Or.inr (Or.inl ⟨rfl, f, fs, rfl, rfl⟩)
  · exact Or.inl ⟨P, rest, rfl, rfl⟩

end WritePass

/-! ## The ring write on the system -/

section Write

variable (s : Sys) (i : Nat) (data : List UInt8) (len : Nat)

/-- the system a pass of the ring write sees: the loop's pipe and memory, the other pipes as they were -/
def writeSys (w : RingWrite) : Sys := ⟨Function.update s.pipes i w.pipe, w.mem⟩

/-- what every pass of the ring write of the first `len` bytes of `data` into pipe `i` keeps -/
structure WriteInv (w : RingWrite) : Prop where
  ring_ok : RingOk w.pipe
  pages_ok : PagesOk (writeSys s i w)
  frames_ok : FramesOk (writeSys s i w) w.frames
  content_eq : content w.mem w.pipe = content s.mem (s.pipes i) ++ data.take w.copied
  others : ∀ j ≠ i, content w.mem (s.pipes j) = content s.mem (s.pipes j)
  ptr_eq : w.pipe.ptr = (s.pipes i).ptr + w.copied
  copied_le : w.copied ≤ len
  readFds_eq : w.pipe.readFds = (s.pipes i).readFds
  writeFds_eq : w.pipe.writeFds = (s.pipes i).writeFds

variable {s i data len}

@[simp] theorem writeSys_pipes_self (w : RingWrite) : (writeSys s i w).pipes i = w.pipe := Function.update_self ..

theorem writeSys_pipes_ne (w : RingWrite) {j : Nat} (h : j ≠ i) : (writeSys s i w).pipes j = s.pipes j :=
  Function.update_of_ne h ..

/-- replacing the loop's pipe is replacing pipe `i` of the system it sees -/
theorem writeSys_pipes (w : RingWrite) (q : PipeInfo) (m : Mem) (f : List Nat) (c : Nat) :
    (writeSys s i ⟨q, m, f, c⟩).pipes = ((writeSys s i w).setPipe i q).pipes := by
  simp [writeSys, Sys.setPipe]

theorem FramesOk.of_pipes {s s' : Sys} {frames : List Nat} (h : s'.pipes = s.pipes) (hf : FramesOk s frames) :
    FramesOk s' frames :=
  ⟨hf.1, fun f hfm => (hf.2 f hfm).of_pipes h⟩

end Write

section WriteSteps

variable {s : Sys} {i : Nat} {data : List UInt8} {len : Nat} {w w' : RingWrite}

/-- an in-place merge appends the copied bytes to the queue -/
theorem WriteInv.merge_inl (hw : WriteInv s i data len w) (hdata : len ≤ data.length)
    (hroom : (s.pipes i).ptr + len ≤ PIPE_BUFF) (h : ringWriteMerge data len w = .inl w') :
    WriteInv s i data len w' ∧ w.copied < w'.copied := by
  obtain ⟨idx, hidx, hm, hc, rfl⟩ := ringWriteMerge_inl h
  obtain ⟨h0, rfl⟩ := pipefsBackBuffer_eq_some hidx
  have hb : w.pipe.buffers (pipefsBufferIndex w.pipe (w.pipe.nrBuffers - 1)) = backBuf w.pipe := rfl
  simp only [hb] at hm ⊢
  set c := mergeChunk len w (pipefsBufferIndex w.pipe (w.pipe.nrBuffers - 1))
  set d := (data.drop w.copied).take c
  have htail : BufOk (backBuf w.pipe) := hw.ring_ok.backBuf_ok h0
  have hend := htail.end_le
  have hc' : c ≤ len - w.copied ∧ c ≤ PAGE_SIZE - ((backBuf w.pipe).offset + (backBuf w.pipe).len) := by
    have hsub : wrapSub 64 PAGE_SIZE ((backBuf w.pipe).offset + (backBuf w.pipe).len) =
        PAGE_SIZE - ((backBuf w.pipe).offset + (backBuf w.pipe).len) := wrapSub_of_le hend (by decide)
    simp only [c, mergeChunk, hb, hsub]
    omega
  have hdlen : d.length = c := by simp only [d, List.length_take, List.length_drop]; omega
  have hptr : w.pipe.ptr + c ≤ PIPE_BUFF := by have := hw.ptr_eq; have := hw.copied_le; omega
  have hring := hw.ring_ok.set_back h0 ((backBuf w.pipe).grow c) (u32 (w.pipe.ptr + c)) (htail.grow hm (by omega)) (by
      rw [u32_of_le hptr]; simp only [PipeBuffer.grow]
      rw [u16_of_le (show c ≤ PAGE_SIZE by omega), u16_of_le (by omega)]; omega)
    (by rw [u32_of_le hptr]; exact hptr)
  have hconcat : bufs w.pipe = (bufs w.pipe).dropLast ++ [backBuf w.pipe] := bufs_eq_concat h0
  have hown : (backBuf w.pipe).phys ∈ ownedOf (bufs ((writeSys s i w).pipes i)) := by
    rw [writeSys_pipes_self, hconcat, ownedOf_append, ownedOf_cons, htail.merge_owned hm]
    simp
  have hinit : (backBuf w.pipe).phys ∉ pagesOf (bufs w.pipe).dropLast := by
    have hcount := hw.pages_ok.owned_count hown
    rw [writeSys_pipes_self, hconcat, pagesOf_append, List.count_append] at hcount
    rw [← List.count_eq_zero]
    simp at hcount
    omega
  refine ⟨⟨hring.1, ?_, ?_, ?_, ?_, ?_, ?_, hw.readFds_eq, hw.writeFds_eq⟩, by omega⟩
  · apply PagesOk.of_pipes (writeSys_pipes w _ _ _ _)
    apply hw.pages_ok.shrink
    · rw [hring.2, writeSys_pipes_self, hconcat, pagesOf_append, pagesOf_append, List.dropLast_concat]; rfl
    · rw [hring.2, writeSys_pipes_self, hconcat, ownedOf_append, ownedOf_append, List.dropLast_concat]
      simp only [ownedOf_cons, PipeBuffer.grow]
      exact List.Sublist.refl _
    · rw [writeSys_pipes_self]
  · apply FramesOk.of_pipes (writeSys_pipes w _ _ _ _)
    apply hw.frames_ok.setPipe_same
    · rw [hring.2, writeSys_pipes_self, hconcat, pagesOf_append, pagesOf_append, List.dropLast_concat]; rfl
    · rw [writeSys_pipes_self]
  · have hgrow : bufBytes (memWrite w.mem (backBuf w.pipe).phys ((backBuf w.pipe).offset + (backBuf w.pipe).len) d)
        ((backBuf w.pipe).grow d.length) = bufBytes w.mem (backBuf w.pipe) ++ d := bufBytes_grow (by omega)
    rw [hdlen] at hgrow
    rw [content_eq_flatMap, hring.2, List.flatMap_append, flatMap_bufBytes_memWrite hinit, List.flatMap_singleton,
      hgrow, ← List.append_assoc, ← content_eq_dropLast w.mem h0, hw.content_eq, List.append_assoc, ← List.take_add]
  · intro j hj
    have hnot : (backBuf w.pipe).phys ∉ pagesOf (bufs (s.pipes j)) := by
      have := hw.pages_ok.owned_not_mem hown hj
      rwa [writeSys_pipes_ne w hj] at this
    rw [content_memWrite_of_not_mem hnot, hw.others j hj]
  · show u32 (w.pipe.ptr + c) = (s.pipes i).ptr + (w.copied + c)
    rw [u32_of_le hptr, hw.ptr_eq]; omega
  · show w.copied + c ≤ len
    omega

/-- a merge that falls through leaves the queue, clearing `can_merge` when the back page is full -/
theorem WriteInv.merge_inr (hw : WriteInv s i data len w) (h : ringWriteMerge data len w = .inr w') :
    WriteInv s i data len w' ∧ w'.copied = w.copied := by
  rcases ringWriteMerge_inr h with rfl | ⟨idx, hidx, _, _, rfl⟩
  · exact ⟨hw, rfl⟩
  obtain ⟨h0, rfl⟩ := pipefsBackBuffer_eq_some hidx
  have hb : w.pipe.buffers (pipefsBufferIndex w.pipe (w.pipe.nrBuffers - 1)) = backBuf w.pipe := rfl
  simp only [hb]
  have htail : BufOk (backBuf w.pipe) := hw.ring_ok.backBuf_ok h0
  have hring := hw.ring_ok.set_back h0 { backBuf w.pipe with canMerge := false } w.pipe.ptr
    ⟨htail.len_pos, htail.end_le, htail.phys_ne, fun h => by cases h⟩ rfl hw.ring_ok.ptr_le
  have hconcat : bufs w.pipe = (bufs w.pipe).dropLast ++ [backBuf w.pipe] := bufs_eq_concat h0
  have hpages : pagesOf (bufs { w.pipe with
      buffers := Function.update w.pipe.buffers (pipefsBufferIndex w.pipe (w.pipe.nrBuffers - 1))
        { backBuf w.pipe with canMerge := false }
      ptr := w.pipe.ptr }) = pagesOf (bufs ((writeSys s i w).pipes i)) := by
    rw [hring.2, writeSys_pipes_self, hconcat, pagesOf_append, pagesOf_append, List.dropLast_concat]; rfl
  refine ⟨⟨hring.1, ?_, ?_, ?_, hw.others, hw.ptr_eq, hw.copied_le, hw.readFds_eq, hw.writeFds_eq⟩, trivial⟩
  · apply PagesOk.of_pipes (writeSys_pipes w _ _ _ _)
    apply hw.pages_ok.shrink hpages
    · rw [hring.2, writeSys_pipes_self, hconcat, ownedOf_append, ownedOf_append, List.dropLast_concat]
      simp only [ownedOf_cons]
      exact List.Sublist.refl _
    · rw [writeSys_pipes_self]
  · apply FramesOk.of_pipes (writeSys_pipes w _ _ _ _)
    exact hw.frames_ok.setPipe_same hpages (by rw [writeSys_pipes_self])
  · rw [← hw.content_eq, content_eq_flatMap, hring.2, List.flatMap_append, List.flatMap_singleton,
      content_eq_dropLast w.mem h0]
    rfl

/-- what taking a page for the ring write leaves: the same ring, a cache that lost at most its top, and a page
that is free when it is not 0 -/
structure AllocOk (S : Sys) (i : Nat) (a : PipeInfo × List Nat × Nat) : Prop where
  ring_ok : RingOk a.1
  bufs_eq : bufs a.1 = bufs (S.pipes i)
  ptr_eq : a.1.ptr = (S.pipes i).ptr
  readFds_eq : a.1.readFds = (S.pipes i).readFds
  writeFds_eq : a.1.writeFds = (S.pipes i).writeFds
  pages_ok : PagesOk (S.setPipe i a.1)
  frames_ok : FramesOk (S.setPipe i a.1) a.2.1
  fresh : a.2.2 ≠ 0 → FreePage (S.setPipe i a.1) a.2.2 ∧ a.2.2 ∉ a.2.1

theorem RingOk.with_cache {p : PipeInfo} (h : RingOk p) (c : List Nat) : RingOk { p with cachedPages := c } :=
  ⟨h.head_lt, h.nr_le, h.ptr_eq, h.ptr_le, h.buf_ok⟩

/-- `pipefs_alloc_owned_page_locked` from a system that keeps the discipline and a legal allocator -/
theorem pipefsAllocOwnedPageLocked_ok {S : Sys} {frames : List Nat} (hpages : PagesOk S)
    (hframes : FramesOk S frames) (hring : RingOk (S.pipes i)) :
    AllocOk S i (pipefsAllocOwnedPageLocked (S.pipes i) frames) := by
  rcases pipefsAllocOwnedPageLocked_cases (S.pipes i) frames with ⟨P, rest, hc, ha⟩ | ⟨_, f, fs, rfl, ha⟩ | ⟨_, rfl, ha⟩
  · rw [ha]
    have hshrink : PagesOk (S.setPipe i { S.pipes i with cachedPages := rest }) :=
      hpages.shrink rfl (List.Sublist.refl _) (by rw [hc]; exact List.sublist_cons_self _ _)
    have hfree : ∀ f, FreePage S f → FreePage (S.setPipe i { S.pipes i with cachedPages := rest }) f :=
      fun f hf => hf.setPipe (hf i).1 (fun h => (hf i).2 (by rw [hc]; exact List.mem_cons_of_mem P h))
    refine ⟨hring.with_cache rest, rfl, rfl, rfl, rfl, hshrink, ⟨hframes.1, fun f hf => hfree f (hframes.2 f hf)⟩,
      fun _ => ⟨?_, ?_⟩⟩
    · intro j
      have hP : P ∈ (S.pipes i).cachedPages := by rw [hc]; exact List.mem_cons_self
      by_cases hj : j = i
      · subst hj
        rw [setPipe_pipes_self]
        refine ⟨hpages.cache_free j j P hP, ?_⟩
        have hnd := hpages.cache_nodup j
        rw [hc, List.nodup_cons] at hnd
        exact hnd.1
      · rw [setPipe_pipes_ne hj]
        exact ⟨hpages.cache_free i j P hP, fun hPj => hj (hpages.cache_excl i j P hP hPj).symm⟩
    · intro hP
      exact (hframes.2 P hP i).2 (by rw [hc]; exact List.mem_cons_self)
  · rw [ha]
    have hnd := hframes.1
    rw [List.nodup_cons] at hnd
    refine ⟨hring, rfl, rfl, rfl, rfl, by rw [setPipe_self]; exact hpages, ?_, fun _ => ?_⟩
    · rw [setPipe_self]
      exact ⟨hnd.2, fun g hg => hframes.2 g (List.mem_cons_of_mem f hg)⟩
    · rw [setPipe_self]
      exact ⟨hframes.2 f List.mem_cons_self, hnd.1⟩
  · rw [ha]
    refine ⟨hring, rfl, rfl, rfl, rfl, by rw [setPipe_self]; exact hpages, ⟨List.nodup_nil, by simp⟩, fun h => ?_⟩
    exact absurd rfl h

theorem content_of_bufs_eq {mem : Mem} {p q : PipeInfo} (h : bufs q = bufs p) : content mem q = content mem p := by
  rw [content_eq_flatMap, h, ← content_eq_flatMap]

/-- `pipefs_release_owned_page_locked` of a page that is not 0: on the cache, or freed -/
theorem pipefsReleaseOwnedPageLocked_cases (p : PipeInfo) {P : Nat} (hP : P ≠ 0) :
    pipefsReleaseOwnedPageLocked p P = p ∨ pipefsReleaseOwnedPageLocked p P = { p with cachedPages := P :: p.cachedPages } := by
  unfold pipefsReleaseOwnedPageLocked
  rw [if_neg hP]
  split
  · exact Or.inr rfl
  · exact Or.inl rfl

section NewPage

variable {q : PipeInfo} {fs : List Nat} {P : Nat}

/-- the system after the pass is the one before it with pipe `i` replaced -/
theorem writeSys_after (w : RingWrite) (q q' : PipeInfo) (m : Mem) (f : List Nat) (c : Nat) :
    (writeSys s i ⟨q', m, f, c⟩).pipes = (((writeSys s i w).setPipe i q).setPipe i q').pipes := by
  rw [setPipe_setPipe]; exact writeSys_pipes w q' m f c

/-- a copy into the page just taken changes no queue -/
theorem AllocOk.copy (hw : WriteInv s i data len w) (ha : AllocOk (writeSys s i w) i (q, fs, P)) (hP : P ≠ 0)
    (d : List UInt8) :
    content (memWrite w.mem P 0 d) q = content s.mem (s.pipes i) ++ data.take w.copied ∧
      ∀ j ≠ i, content (memWrite w.mem P 0 d) (s.pipes j) = content s.mem (s.pipes j) := by
  have hfree := (ha.fresh hP).1
  refine ⟨?_, fun j hj => ?_⟩
  · have hq := (hfree i).1
    rw [setPipe_pipes_self] at hq
    rw [content_memWrite_of_not_mem hq, content_of_bufs_eq ha.bufs_eq, writeSys_pipes_self, hw.content_eq]
  · have hj' := (hfree j).1
    rw [setPipe_pipes_ne hj, writeSys_pipes_ne w hj] at hj'
    rw [content_memWrite_of_not_mem hj', hw.others j hj]

/-- no page: the loop stops with the ring as it was -/
theorem WriteInv.alloc_none (hw : WriteInv s i data len w) (ha : AllocOk (writeSys s i w) i (q, fs, P)) :
    WriteInv s i data len ⟨q, w.mem, fs, w.copied⟩ := by
  have hptr : q.ptr = w.pipe.ptr := by simpa using ha.ptr_eq
  have hrd : q.readFds = w.pipe.readFds := by simpa using ha.readFds_eq
  have hwr : q.writeFds = w.pipe.writeFds := by simpa using ha.writeFds_eq
  refine ⟨ha.ring_ok, PagesOk.of_pipes (writeSys_after w q _ _ _ _) (by rw [setPipe_setPipe]; exact ha.pages_ok),
    FramesOk.of_pipes (writeSys_after w q _ _ _ _) (by rw [setPipe_setPipe]; exact ha.frames_ok), ?_, hw.others,
    by rw [hptr]; exact hw.ptr_eq, hw.copied_le, by rw [hrd]; exact hw.readFds_eq, by rw [hwr]; exact hw.writeFds_eq⟩
  dsimp only
  rw [content_of_bufs_eq ha.bufs_eq, writeSys_pipes_self, hw.content_eq]

/-- the append was refused: the page goes back to the cache, or is freed, and the loop stops -/
theorem WriteInv.alloc_release (hw : WriteInv s i data len w) (ha : AllocOk (writeSys s i w) i (q, fs, P))
    (hP : P ≠ 0) (d : List UInt8) :
    WriteInv s i data len ⟨pipefsReleaseOwnedPageLocked q P, memWrite w.mem P 0 d, fs, w.copied⟩ := by
  obtain ⟨hcopy, hothers⟩ := ha.copy hw hP d
  obtain ⟨hfree, hnotin⟩ : FreePage ((writeSys s i w).setPipe i q) P ∧ P ∉ fs := ha.fresh hP
  have hptr : q.ptr = w.pipe.ptr := by simpa using ha.ptr_eq
  have hrd : q.readFds = w.pipe.readFds := by simpa using ha.readFds_eq
  have hwr : q.writeFds = w.pipe.writeFds := by simpa using ha.writeFds_eq
  have hpipe : ((writeSys s i w).setPipe i q).pipes i = q := setPipe_pipes_self
  rcases pipefsReleaseOwnedPageLocked_cases q hP with hr | hr <;> rw [hr]
  · exact ⟨ha.ring_ok, PagesOk.of_pipes (writeSys_after w q _ _ _ _) (by rw [setPipe_setPipe]; exact ha.pages_ok),
      FramesOk.of_pipes (writeSys_after w q _ _ _ _) (by rw [setPipe_setPipe]; exact ha.frames_ok), hcopy, hothers,
      by rw [hptr]; exact hw.ptr_eq, hw.copied_le, by rw [hrd]; exact hw.readFds_eq, by rw [hwr]; exact hw.writeFds_eq⟩
  · refine ⟨ha.ring_ok.with_cache _, PagesOk.of_pipes (writeSys_after w q _ _ _ _) ?_,
      FramesOk.of_pipes (writeSys_after w q _ _ _ _) ?_, hcopy, hothers,
      by show q.ptr = _; rw [hptr]; exact hw.ptr_eq, hw.copied_le,
      by show q.readFds = _; rw [hrd]; exact hw.readFds_eq, by show q.writeFds = _; rw [hwr]; exact hw.writeFds_eq⟩
    · exact ha.pages_ok.release (by rw [hpipe]; rfl) (by rw [hpipe]) hfree
    · refine ⟨ha.frames_ok.1, fun f hf => (ha.frames_ok.2 f hf).setPipe ?_ ?_⟩
      · have := (ha.frames_ok.2 f hf i).1
        rwa [hpipe] at this
      · intro hfm
        rcases List.mem_cons.1 hfm with rfl | hfm
        · exact hnotin hf
        · exact (ha.frames_ok.2 f hf i).2 (by rw [hpipe]; exact hfm)

/-- the page joins the queue at the back with the next bytes -/
theorem WriteInv.alloc_append (hw : WriteInv s i data len w) (ha : AllocOk (writeSys s i w) i (q, fs, P))
    (hP : P ≠ 0) (hdata : len ≤ data.length) (hlt : w.copied < len)
    (hret : 0 < (pipefsAppendPageLocked q P 0 (newChunk len w) false).2) :
    WriteInv s i data len ⟨(pipefsAppendPageLocked q P 0 (newChunk len w) false).1,
      memWrite w.mem P 0 ((data.drop w.copied).take (newChunk len w)), fs, w.copied + newChunk len w⟩ := by
  obtain ⟨hcopy, hothers⟩ := ha.copy hw hP ((data.drop w.copied).take (newChunk len w))
  obtain ⟨hfree, hnotin⟩ : FreePage ((writeSys s i w).setPipe i q) P ∧ P ∉ fs := ha.fresh hP
  have hpipe : ((writeSys s i w).setPipe i q).pipes i = q := setPipe_pipes_self
  have hch : newChunk len w ≤ len - w.copied := by unfold newChunk; omega
  have hdlen : ((data.drop w.copied).take (newChunk len w)).length = newChunk len w := by
    simp only [List.length_take, List.length_drop]; omega
  obtain ⟨hring, hbufs, hptr, -, hcache, hrd, hwr⟩ := pipefsAppendPageLocked_spec ha.ring_ok hret
  have hqptr : q.ptr = w.pipe.ptr := by simpa using ha.ptr_eq
  refine ⟨hring, PagesOk.of_pipes (writeSys_after w q _ _ _ _) ?_, FramesOk.of_pipes (writeSys_after w q _ _ _ _) ?_, ?_,
    hothers, ?_, by dsimp only; omega, ?_, ?_⟩
  · apply ha.pages_ok.push (b := appendedBuf P 0 (newChunk len w) false) (by rw [hbufs, hpipe]) (by rw [hcache, hpipe])
    · exact fun j => ⟨fun h => (hfree j).1 (mem_pagesOf_of_mem_ownedOf h), (hfree j).2⟩
    · exact fun _ j => (hfree j).1
  · refine ⟨ha.frames_ok.1, fun f hf => (ha.frames_ok.2 f hf).setPipe ?_ ?_⟩
    · have hfq := (ha.frames_ok.2 f hf i).1
      rw [hpipe] at hfq
      rw [hbufs, pagesOf_append]
      simp only [List.mem_append, pagesOf_cons, pagesOf_nil, List.mem_singleton, not_or]
      exact ⟨hfq, fun h => hnotin ((show f = P from h) ▸ hf)⟩
    · have hfq := (ha.frames_ok.2 f hf i).2
      rw [hpipe] at hfq
      rwa [hcache]
  · show content _ _ = _
    rw [content_eq_flatMap, hbufs, List.flatMap_append, ← content_eq_flatMap, hcopy, List.flatMap_singleton,
      bufBytes]
    simp only [appendedBuf]
    rw [memRead_memWrite_of_length hdlen, List.append_assoc, ← List.take_add]
  · show _ = (s.pipes i).ptr + (w.copied + newChunk len w)
    rw [hptr, hqptr, hw.ptr_eq]; omega
  · have hq : q.readFds = w.pipe.readFds := by simpa using ha.readFds_eq
    rw [hrd, hq]; exact hw.readFds_eq
  · have hq : q.writeFds = w.pipe.writeFds := by simpa using ha.writeFds_eq
    rw [hwr, hq]; exact hw.writeFds_eq

end NewPage

/-- a pass through the new-page branch keeps the invariant, and one that goes on has copied more -/
theorem WriteInv.newPage (hw : WriteInv s i data len w) (hdata : len ≤ data.length)
    (hlt : w.copied < len) :
    (∀ w', ringWriteNewPage data len w = .inl w' → WriteInv s i data len w' ∧ w.copied < w'.copied) ∧
      (∀ w', ringWriteNewPage data len w = .inr w' → WriteInv s i data len w') := by
  have ha := pipefsAllocOwnedPageLocked_ok (S := writeSys s i w) hw.pages_ok hw.frames_ok
    (by rw [writeSys_pipes_self]; exact hw.ring_ok)
  rw [writeSys_pipes_self] at ha
  rcases hq : pipefsAllocOwnedPageLocked w.pipe w.frames with ⟨q, fs, P⟩
  rw [hq] at ha
  rw [ringWriteNewPage_eq, hq]
  dsimp only
  by_cases hP : P = 0
  · rw [if_pos hP]
    exact ⟨fun _ h => (nomatch h), fun w' h => by cases h; exact hw.alloc_none ha⟩
  rw [if_neg hP]
  split
  · exact ⟨fun _ h => (nomatch h), fun w' h => by
      cases h
      rw [pipefsAppendPageLocked_refused (by assumption)]
      exact hw.alloc_release ha hP _⟩
  · rename_i hret
    refine ⟨fun w' h => ?_, fun _ h => (nomatch h)⟩
    cases h
    refine ⟨hw.alloc_append ha hP hdata hlt (by omega), ?_⟩
    show w.copied < w.copied + newChunk len w
    unfold newChunk PAGE_SIZE; omega

end WriteSteps

/-! ## The loop of the ring write -/

section WriteLoop

variable {s : Sys} {i : Nat} {data : List UInt8} {len : Nat}

/-- every pass of the loop keeps `WriteInv` -/
theorem pipefsRingWriteLoop_inv (hdata : len ≤ data.length) (hroom : (s.pipes i).ptr + len ≤ PIPE_BUFF) :
    ∀ fuel w, WriteInv s i data len w → WriteInv s i data len (pipefsRingWriteLoop data len fuel w) := by
  intro fuel
  induction fuel with
  | zero => exact fun w hw => hw
  | succ fuel ih =>
    intro w hw
    unfold pipefsRingWriteLoop
    split
    · rename_i hlt
      split
      · rename_i w' hm
        exact ih w' (hw.merge_inl hdata hroom hm).1
      · rename_i w' hm
        obtain ⟨hw', hc⟩ := hw.merge_inr hm
        have hnew := hw'.newPage hdata (by omega)
        split
        · rename_i w'' hn
          exact ih w'' (hnew.1 w'' hn).1
        · rename_i w'' hn
          exact hnew.2 w'' hn
    · exact hw

end WriteLoop

/-! ## The system invariant and the legal steps -/

/-- every ring is well formed and the pages follow the discipline -/
structure SysOk (s : Sys) : Prop where
  ring_ok : ∀ i, RingOk (s.pipes i)
  pages_ok : PagesOk s

/-- what a step needs from its environment: frames the allocator hands out are free, and a user page spliced in is
not one a pipe owns or caches -/
def LegalOp (s : Sys) : PipeOp → Prop
  | .write _ _ _ frames => FramesOk s frames
  | .spliceFromUser _ pa _ _ => UserPageOk s (paddingDown pa)
  | .read .. | .splicePipe .. => True

/-- a run whose every step is legal in the state it starts from -/
def LegalRun : Sys → List PipeOp → Prop
  | _, [] => True
  | s, op :: ops => LegalOp s op ∧ LegalRun (step s op).sys ops

/-- no byte lost, duplicated or reordered: what each pipe queued and then accepted is what it handed out and then
queues -/
def Conserves (s : Sys) (e : Effect) : Prop :=
  ∀ j, content s.mem (s.pipes j) ++ e.accepted j = e.removed j ++ content e.sys.mem (e.sys.pipes j)

section Steps

variable {s : Sys} {i : Nat}

theorem SysOk.setPipe (hs : SysOk s) {q : PipeInfo} (hq : RingOk q) (hpages : PagesOk (s.setPipe i q)) :
    SysOk (s.setPipe i q) := by
  refine ⟨fun j => ?_, hpages⟩
  by_cases hj : j = i
  · subst hj; rw [setPipe_pipes_self]; exact hq
  · rw [setPipe_pipes_ne hj]; exact hs.ring_ok j

@[simp] theorem onlyAt_self (bytes : List UInt8) : onlyAt i bytes i = bytes := Function.update_self ..
theorem onlyAt_ne (bytes : List UInt8) {j : Nat} (h : j ≠ i) : onlyAt i bytes j = [] := Function.update_of_ne h ..

/-- a step that changes only pipe `i` conserves when pipe `i` does and the others keep their bytes -/
theorem conserves_one (e : Effect) (hpipes : ∀ j ≠ i, e.sys.pipes j = s.pipes j)
    (hi : content s.mem (s.pipes i) ++ e.accepted i = e.removed i ++ content e.sys.mem (e.sys.pipes i))
    (hj : ∀ j ≠ i, e.accepted j = [] ∧ e.removed j = [] ∧
      content e.sys.mem (s.pipes j) = content s.mem (s.pipes j)) : Conserves s e := by
  intro j
  by_cases hji : j = i
  · subst hji; exact hi
  · obtain ⟨ha, hr, hc⟩ := hj j hji
    rw [ha, hr, hpipes j hji, hc, List.append_nil, List.nil_append]

/-- a read hands out the front of the queue, as many bytes as were asked and queued -/
theorem step_read (hs : SysOk s) (size : Nat) :
    SysOk (step s (.read i size)).sys ∧ Conserves s (step s (.read i size)) ∧
      (step s (.read i size)).removed i = (content s.mem (s.pipes i)).take (min size (s.pipes i).ptr) := by
  have hring := hs.ring_ok i
  have hpipes : ∀ (q : PipeInfo), ∀ j ≠ i, (s.setPipe i q).pipes j = s.pipes j := fun q j hj => setPipe_pipes_ne hj
  have hothers : ∀ (q : PipeInfo) (out : List UInt8), ∀ j ≠ i, (fun _ => ([] : List UInt8)) j = [] ∧
      onlyAt i out j = [] ∧ content (s.setPipe i q).mem (s.pipes j) = content s.mem (s.pipes j) :=
    fun q out j hj => ⟨rfl, onlyAt_ne _ hj, rfl⟩
  simp only [step, pipeReadLocked]
  split
  · obtain ⟨hr, htake, hdrop⟩ := pipefsCopyOutLocked_spec s.mem (min size (s.pipes i).ptr) hring
    refine ⟨hs.setPipe hr (PagesOk.copyOut (by rw [setPipe_self]; exact hs.pages_ok) hring _),
      conserves_one _ (hpipes _) ?_ (hothers _ _), by simp [htake]⟩
    simp only [onlyAt_self, setPipe_pipes_self, setPipe_mem, List.append_nil]
    rw [htake, hdrop, List.take_append_drop]
  · rename_i hptr
    have hnil : (s.pipes i).ptr = 0 := by omega
    split <;> refine ⟨by rw [setPipe_self]; exact hs, conserves_one _ (hpipes _) ?_ (hothers _ _), by simp [hnil]⟩ <;>
      simp

theorem WriteInv.start (hs : SysOk s) {data : List UInt8} {len : Nat} {frames : List Nat}
    (hf : FramesOk s frames) : WriteInv s i data len ⟨s.pipes i, s.mem, frames, 0⟩ := by
  have hpipes : (writeSys s i ⟨s.pipes i, s.mem, frames, 0⟩).pipes = s.pipes := Function.update_eq_self ..
  exact ⟨hs.ring_ok i, hs.pages_ok.of_pipes hpipes, hf.of_pipes hpipes, by simp, fun _ _ => rfl, rfl,
    Nat.zero_le _, rfl, rfl⟩

theorem WriteInv.sysOk {data : List UInt8} {len : Nat} {w : RingWrite} (hs : SysOk s)
    (hw : WriteInv s i data len w) : SysOk (writeSys s i w) := by
  refine ⟨fun j => ?_, hw.pages_ok⟩
  by_cases hj : j = i
  · subst hj; rw [writeSys_pipes_self]; exact hw.ring_ok
  · rw [writeSys_pipes_ne w hj]; exact hs.ring_ok j

/-- a write accepts the first bytes of its data, as many as it copied -/
theorem WriteInv.conserves {data : List UInt8} {len : Nat} {w : RingWrite} (hw : WriteInv s i data len w)
    {n : Nat} (hn : n = w.copied) :
    Conserves s ⟨writeSys s i w, onlyAt i (data.take n), fun _ => []⟩ := by
  apply conserves_one _ (fun j hj => writeSys_pipes_ne w hj)
  · simp only [onlyAt_self, writeSys_pipes_self, List.nil_append, hn]
    exact hw.content_eq.symm
  · exact fun j hj => ⟨onlyAt_ne _ hj, rfl, hw.others j hj⟩

/-- a write keeps the invariant and accepts the first bytes of its data, as many as it returns -/
theorem step_write (hs : SysOk s) (data : List UInt8) (atomic : Bool) {frames : List Nat} (hf : FramesOk s frames) :
    SysOk (step s (.write i data atomic frames)).sys ∧ Conserves s (step s (.write i data atomic frames)) := by
  have hnone : SysOk ⟨Function.update s.pipes i (s.pipes i), s.mem⟩ ∧
      Conserves s ⟨⟨Function.update s.pipes i (s.pipes i), s.mem⟩, onlyAt i (data.take 0), fun _ => []⟩ := by
    have hw : WriteInv s i data 0 ⟨s.pipes i, s.mem, frames, 0⟩ := WriteInv.start hs hf
    exact ⟨hw.sysOk hs, hw.conserves rfl⟩
  simp only [step, pipeWriteLocked]
  split
  · exact hnone
  split
  · rename_i _ hroom
    have havail : wrapSub 32 PIPE_BUFF (s.pipes i).ptr = PIPE_BUFF - (s.pipes i).ptr :=
      wrapSub_32 (hs.ring_ok i).ptr_le le_rfl
    set toWrite := if atomic = true then data.length else min data.length (wrapSub 32 PIPE_BUFF (s.pipes i).ptr)
    have hdata : toWrite ≤ data.length := by
      simp only [toWrite]; split <;> omega
    have hfit : (s.pipes i).ptr + toWrite ≤ PIPE_BUFF := by
      rw [havail] at hroom
      have := (hs.ring_ok i).ptr_le
      simp only [toWrite]
      split
      · rename_i hat
        simp only [hat, Bool.not_true, Bool.false_or, decide_eq_true_eq] at hroom
        omega
      · rw [havail]; omega
    have hw := pipefsRingWriteLoop_inv hdata hfit (toWrite + 1) _ (WriteInv.start (i := i) hs hf)
    split
    · rename_i h0
      exact ⟨hw.sysOk hs, hw.conserves h0.symm⟩
    · exact ⟨hw.sysOk hs, hw.conserves rfl⟩
  · exact hnone

/-- a user-page append queues the window of the user's page it names -/
theorem step_spliceFromUser (hs : SysOk s) (pa want : Nat) (refOk : Bool) (hu : UserPageOk s (paddingDown pa)) :
    SysOk (step s (.spliceFromUser i pa want refOk)).sys ∧ Conserves s (step s (.spliceFromUser i pa want refOk)) := by
  have hring := hs.ring_ok i
  have hkeep : SysOk (s.setPipe i (s.pipes i)) ∧
      Conserves s ⟨s.setPipe i (s.pipes i), onlyAt i (memRead s.mem (paddingDown pa) (pa - paddingDown pa) 0),
        fun _ => []⟩ := by
    rw [setPipe_self]
    refine ⟨hs, fun j => ?_⟩
    by_cases hj : j = i
    · subst hj; simp [memRead]
    · simp [onlyAt_ne _ hj]
  simp only [step, spliceFromUserLocked]
  split
  · exact hkeep
  split
  · exact hkeep
  split
  · exact hkeep
  split
  · exact hkeep
  split
  · rename_i hret
    rw [pipefsAppendPageLocked_refused hret]
    exact hkeep
  · rename_i hret
    obtain ⟨hr, hbufs, -, hval, hcache, -, -⟩ := pipefsAppendPageLocked_spec hring (not_le.mp hret)
    refine ⟨hs.setPipe hr (hs.pages_ok.push hbufs hcache hu (fun h => by cases h)), ?_⟩
    apply conserves_one _ (fun j hj => setPipe_pipes_ne hj)
    · simp only [onlyAt_self, setPipe_pipes_self, setPipe_mem, List.nil_append, hval, Int.toNat_natCast]
      rw [content_eq_flatMap _ (pipefsAppendPageLocked _ _ _ _ _).1, hbufs, List.flatMap_append,
        List.flatMap_singleton, ← content_eq_flatMap]
      rfl
    · exact fun j hj => ⟨onlyAt_ne _ hj, rfl, rfl⟩

end Steps

/-! ## Moving between pipes -/

section Move

variable {dst src : PipeInfo} {maxLen : Nat} {refOk : Bool}

/-- the bytes one move takes -/
def moveChunk (dst src : PipeInfo) (maxLen : Nat) : Nat :=
  min (min maxLen (src.buffers src.head).len) (PIPE_BUFF - dst.ptr)

/-- the front descriptor of the source once the page is shared: a reference that no one merges into -/
def sharedBuf (b : PipeBuffer) : PipeBuffer := { b with pageRef := true, canMerge := false }

/-- the descriptor a move adds to the destination: the first `n` bytes of `b`, as a reference -/
def sharedPrefix (b : PipeBuffer) (n : Nat) : PipeBuffer := { b with len := n, pageRef := true, canMerge := false }

/-- what `pipefs_move_one_locked` does: nothing (or a cleared slot past the ring of `dst`), or the move -/
theorem pipefsMoveOneLocked_cases :
    ((pipefsMoveOneLocked dst src maxLen refOk).ok = false ∧ (pipefsMoveOneLocked dst src maxLen refOk).src = src ∧
        (pipefsMoveOneLocked dst src maxLen refOk).moved = 0 ∧
        ((pipefsMoveOneLocked dst src maxLen refOk).dst = dst ∨ (dst.nrBuffers < PIPE_MAX_BUFFERS ∧
          (pipefsMoveOneLocked dst src maxLen refOk).dst =
            { dst with buffers := Function.update dst.buffers (pipefsBufferIndex dst dst.nrBuffers) .zero }))) ∨
      ((pipefsMoveOneLocked dst src maxLen refOk).ok = true ∧ src.nrBuffers ≠ 0 ∧
        dst.nrBuffers < PIPE_MAX_BUFFERS ∧ dst.ptr < PIPE_BUFF ∧ moveChunk dst src maxLen ≠ 0 ∧
        (pipefsMoveOneLocked dst src maxLen refOk).moved = moveChunk dst src maxLen ∧
        (pipefsMoveOneLocked dst src maxLen refOk).dst = { dst with
          nrBuffers := dst.nrBuffers + 1
          buffers := Function.update dst.buffers (pipefsBufferIndex dst dst.nrBuffers)
            (sharedPrefix (src.buffers src.head) (u16 (moveChunk dst src maxLen)))
          ptr := u32 (dst.ptr + moveChunk dst src maxLen) } ∧
        (pipefsMoveOneLocked dst src maxLen refOk).src = pipefsBufferConsumeLocked
          { src with buffers := Function.update src.buffers src.head (sharedBuf (src.buffers src.head)) }
          (moveChunk dst src maxLen)) := by
  unfold pipefsMoveOneLocked
  split
  · exact Or.inl ⟨rfl, rfl, rfl, Or.inl rfl⟩
  rename_i hguard
  split
  · exact Or.inl ⟨rfl, rfl, rfl, Or.inl rfl⟩
  rename_i hroom
  dsimp only
  split
  · exact Or.inl ⟨rfl, rfl, rfl, Or.inl rfl⟩
  rename_i hc
  rw [pipefsPushBufferLocked_of_lt (by omega)]
  dsimp only
  split
  · refine Or.inl ⟨rfl, rfl, rfl, Or.inr ⟨by omega, ?_⟩⟩
    simp [Function.update_idem]
  · refine Or.inr ⟨rfl, by omega, by omega, by omega, hc, rfl, ?_, rfl⟩
    simp [Function.update_idem, sharedPrefix, moveChunk]

theorem BufOk.sharedBuf {b : PipeBuffer} (hb : BufOk b) : BufOk (sharedBuf b) :=
  ⟨hb.len_pos, hb.end_le, hb.phys_ne, fun h => nomatch h⟩

/-- sharing the front page marks the front a reference and leaves the queue -/
theorem RingOk.share_front (h : RingOk src) (h0 : src.nrBuffers ≠ 0) :
    RingOk { src with buffers := Function.update src.buffers src.head (sharedBuf (src.buffers src.head)) } ∧
      bufs { src with buffers := Function.update src.buffers src.head (sharedBuf (src.buffers src.head)) } =
        sharedBuf (src.buffers src.head) :: (bufs src).tail := by
  have hbufs : bufs { src with buffers := Function.update src.buffers src.head (sharedBuf (src.buffers src.head)) } =
      sharedBuf (src.buffers src.head) :: (bufs src).tail := bufs_set_head h.head_lt h.nr_le h0
  have hcons := bufs_eq_cons h.head_lt h0
  have hfront : BufOk (src.buffers src.head) := h.buf_ok _ (by rw [hcons]; exact List.mem_cons_self)
  refine ⟨⟨h.head_lt, h.nr_le, ?_, h.ptr_le, ?_⟩, hbufs⟩
  · rw [hbufs, h.ptr_eq]; nth_rewrite 1 [hcons]; rfl
  · rw [hbufs]
    intro b hb
    rcases List.mem_cons.1 hb with rfl | hb
    · exact hfront.sharedBuf
    · exact h.buf_ok b (List.mem_of_mem_tail hb)

theorem content_share_front (mem : Mem) (h : RingOk src) (h0 : src.nrBuffers ≠ 0) :
    content mem { src with buffers := Function.update src.buffers src.head (sharedBuf (src.buffers src.head)) } =
      content mem src := by
  rw [content_eq_flatMap, (h.share_front h0).2, content_eq_flatMap mem src, bufs_eq_cons h.head_lt h0]
  rfl

/-- the destination of a move gains a descriptor for the first bytes of the source's front -/
theorem RingOk.move_dst (hdst : RingOk dst) (hsrc : RingOk src) (h0 : src.nrBuffers ≠ 0)
    (hnr : dst.nrBuffers < PIPE_MAX_BUFFERS) (hc : moveChunk dst src maxLen ≠ 0) :
    RingOk { dst with
        nrBuffers := dst.nrBuffers + 1
        buffers := Function.update dst.buffers (pipefsBufferIndex dst dst.nrBuffers)
          (sharedPrefix (src.buffers src.head) (u16 (moveChunk dst src maxLen)))
        ptr := u32 (dst.ptr + moveChunk dst src maxLen) } ∧
      bufs { dst with
        nrBuffers := dst.nrBuffers + 1
        buffers := Function.update dst.buffers (pipefsBufferIndex dst dst.nrBuffers)
          (sharedPrefix (src.buffers src.head) (u16 (moveChunk dst src maxLen)))
        ptr := u32 (dst.ptr + moveChunk dst src maxLen) } =
        bufs dst ++ [sharedPrefix (src.buffers src.head) (moveChunk dst src maxLen)] := by
  have hfront : BufOk (src.buffers src.head) :=
    hsrc.buf_ok _ (by rw [bufs_eq_cons hsrc.head_lt h0]; exact List.mem_cons_self)
  have hle : moveChunk dst src maxLen ≤ (src.buffers src.head).len ∧
      moveChunk dst src maxLen ≤ PIPE_BUFF - dst.ptr := by unfold moveChunk; omega
  have hlen : u16 (moveChunk dst src maxLen) = moveChunk dst src maxLen :=
    u16_of_le (by have := hfront.end_le; omega)
  have hdptr := hdst.ptr_le
  have hptr : u32 (dst.ptr + moveChunk dst src maxLen) = dst.ptr + moveChunk dst src maxLen :=
    u32_of_le (by omega)
  rw [hlen, hptr]
  have hbufs : bufs { dst with
      nrBuffers := dst.nrBuffers + 1
      buffers := Function.update dst.buffers (pipefsBufferIndex dst dst.nrBuffers)
        (sharedPrefix (src.buffers src.head) (moveChunk dst src maxLen))
      ptr := dst.ptr + moveChunk dst src maxLen } =
      bufs dst ++ [sharedPrefix (src.buffers src.head) (moveChunk dst src maxLen)] := bufs_push_set hnr
  refine ⟨⟨hdst.head_lt, hnr, ?_, by show dst.ptr + moveChunk dst src maxLen ≤ PIPE_BUFF; omega, ?_⟩, hbufs⟩
  · rw [hbufs, List.map_append, List.sum_append, ← hdst.ptr_eq]; rfl
  · rw [hbufs]
    intro b hb
    rcases List.mem_append.1 hb with hb | hb
    · exact hdst.buf_ok b hb
    · rw [List.mem_singleton.1 hb]
      exact ⟨Nat.pos_of_ne_zero hc, by have := hfront.end_le; simp [sharedPrefix]; omega, hfront.phys_ne,
        fun h => nomatch h⟩

/-- a cleared slot past the ring changes nothing the ring holds -/
theorem RingOk.clear_free {p : PipeInfo} (h : RingOk p) (hnr : p.nrBuffers < PIPE_MAX_BUFFERS) :
    RingOk { p with buffers := Function.update p.buffers (pipefsBufferIndex p p.nrBuffers) .zero } ∧
      bufs { p with buffers := Function.update p.buffers (pipefsBufferIndex p p.nrBuffers) .zero } = bufs p := by
  have hbufs : bufs { p with buffers := Function.update p.buffers (pipefsBufferIndex p p.nrBuffers) .zero } =
      bufs p := bufs_set_free hnr
  exact ⟨⟨h.head_lt, h.nr_le, by rw [hbufs]; exact h.ptr_eq, h.ptr_le, by rw [hbufs]; exact h.buf_ok⟩, hbufs⟩

/-- the owned pages after the front is shared are the owned pages of the rest -/
theorem ownedOf_sharedBuf_cons (b : PipeBuffer) (l : List PipeBuffer) : ownedOf (sharedBuf b :: l) = ownedOf l := by
  simp [ownedOf_cons, sharedBuf]

theorem ownedOf_cons_sublist (b : PipeBuffer) (l : List PipeBuffer) : (ownedOf l).Sublist (ownedOf (b :: l)) := by
  rw [ownedOf_cons]; split
  · exact List.Sublist.refl _
  · exact List.sublist_cons_self _ _

/-- the page of the source's front is one no pipe owns once the front is shared, and no cache holds -/
theorem PagesOk.share_front {s : Sys} {i : Nat} (hs : PagesOk s) {b : PipeBuffer} {rest : List PipeBuffer}
    (hcons : bufs (s.pipes i) = b :: rest) {q : PipeInfo} (hq : bufs q = sharedBuf b :: rest)
    (hc : q.cachedPages = (s.pipes i).cachedPages) :
    PagesOk (s.setPipe i q) ∧ UserPageOk (s.setPipe i q) b.phys := by
  have hmem : b.phys ∈ pagesOf (bufs (s.pipes i)) := by rw [hcons]; exact List.mem_cons_self
  have hpages : pagesOf (bufs q) = pagesOf (bufs (s.pipes i)) := by rw [hq, hcons]; rfl
  have hown : (ownedOf (bufs q)).Sublist (ownedOf (bufs (s.pipes i))) := by
    rw [hq, ownedOf_sharedBuf_cons, hcons]; exact ownedOf_cons_sublist _ _
  refine ⟨hs.shrink hpages hown (by rw [hc]), fun j => ⟨fun hj => ?_, fun hj => ?_⟩⟩
  · by_cases hji : j = i
    · subst hji
      rw [setPipe_pipes_self, hq, ownedOf_sharedBuf_cons] at hj
      have hj' : b.phys ∈ ownedOf (bufs (s.pipes j)) := by
        rw [hcons]; exact (ownedOf_cons_sublist _ _).subset hj
      have hcount := hs.owned_count hj'
      rw [hcons, pagesOf_cons, List.count_cons] at hcount
      have hpos : 0 < (pagesOf rest).count b.phys := List.count_pos_iff.2 (mem_pagesOf_of_mem_ownedOf hj)
      simp at hcount
      omega
    · rw [setPipe_pipes_ne hji] at hj
      exact hs.owned_not_mem hj (Ne.symm hji) hmem
  · by_cases hji : j = i
    · subst hji; rw [setPipe_pipes_self, hc] at hj; exact hs.cache_free j j _ hj hmem
    · rw [setPipe_pipes_ne hji] at hj; exact hs.cache_free j i _ hj hmem

end Move

section MoveStep

variable {s : Sys}

/-- a step that changes only pipes `src` and `dst` and keeps memory conserves when both do -/
theorem conserves_two (src dst : Nat) (e : Effect) (hmem : e.sys.mem = s.mem)
    (hpipes : ∀ j, j ≠ src → j ≠ dst → e.sys.pipes j = s.pipes j)
    (hsrc : content s.mem (s.pipes src) ++ e.accepted src = e.removed src ++ content s.mem (e.sys.pipes src))
    (hdst : content s.mem (s.pipes dst) ++ e.accepted dst = e.removed dst ++ content s.mem (e.sys.pipes dst))
    (hrest : ∀ j, j ≠ src → j ≠ dst → e.accepted j = [] ∧ e.removed j = []) : Conserves s e := by
  intro j
  rw [hmem]
  by_cases hs : j = src
  · subst hs; exact hsrc
  by_cases hd : j = dst
  · subst hd; exact hdst
  obtain ⟨ha, hr⟩ := hrest j hs hd
  rw [ha, hr, hpipes j hs hd, List.append_nil, List.nil_append]

/-- a pass of a pipe-to-pipe splice keeps the invariant and moves bytes from one queue to the other -/
theorem step_splicePipe (hs : SysOk s) (src dst count : Nat) (refOk : Bool) :
    SysOk (step s (.splicePipe src dst count refOk)).sys ∧ Conserves s (step s (.splicePipe src dst count refOk)) := by
  by_cases hne : src = dst
  · simp only [step, if_pos hne]
    exact ⟨hs, fun j => by simp⟩
  have hothers : ∀ (bytes : List UInt8), ∀ j, j ≠ src → j ≠ dst → onlyAt dst bytes j = [] ∧ onlyAt src bytes j = [] :=
    fun bytes j hs hd => ⟨onlyAt_ne _ hd, onlyAt_ne _ hs⟩
  have hpipes2 : ∀ (q q' : PipeInfo), ∀ j, j ≠ src → j ≠ dst → ((s.setPipe src q).setPipe dst q').pipes j = s.pipes j :=
    fun q q' j hs hd => by rw [setPipe_pipes_ne hd, setPipe_pipes_ne hs]
  have hsrc2 : ∀ (q q' : PipeInfo), ((s.setPipe src q).setPipe dst q').pipes src = q :=
    fun q q' => by rw [setPipe_pipes_ne hne, setPipe_pipes_self]
  have hkeep : ∀ q, bufs q = bufs (s.pipes dst) → q.cachedPages = (s.pipes dst).cachedPages → RingOk q →
      SysOk ((s.setPipe src (s.pipes src)).setPipe dst q) ∧
      Conserves s ⟨(s.setPipe src (s.pipes src)).setPipe dst q, onlyAt dst [], onlyAt src []⟩ := by
    intro q hq hc hr
    rw [setPipe_self]
    refine ⟨hs.setPipe hr (hs.pages_ok.shrink (by rw [hq]) (by rw [hq]) (by rw [hc])), ?_⟩
    apply conserves_two (s := s) src dst _ rfl (fun j _ hd => setPipe_pipes_ne hd) _ _ (hothers _)
    · simp [setPipe_pipes_ne hne, onlyAt_ne _ hne]
    · simp [content_of_bufs_eq hq, onlyAt_ne _ (Ne.symm hne)]
  have hkeep' := hkeep (s.pipes dst) rfl rfl (hs.ring_ok dst)
  simp only [step, if_neg hne, splicePipeLocked]
  split
  · exact hkeep'
  split
  · exact hkeep'
  split
  · exact hkeep'
  rcases @pipefsMoveOneLocked_cases (s.pipes dst) (s.pipes src) count refOk with
    ⟨hok, hrs, -, hrd⟩ | ⟨hok, h0, hnr, -, hc, hmoved, hrd, hrs⟩
  · rw [if_neg (by rw [hok]; decide), hrs]
    rcases hrd with hrd | ⟨hnr, hrd⟩
    · rw [hrd]; exact hkeep'
    · rw [hrd]
      obtain ⟨hr, hq⟩ := (hs.ring_ok dst).clear_free hnr
      exact hkeep _ hq rfl hr
  rw [if_pos hok, hmoved]
  dsimp only
  have hsrc := hs.ring_ok src
  have hcons := bufs_eq_cons hsrc.head_lt h0
  have hcpos : 0 < moveChunk (s.pipes dst) (s.pipes src) count := Nat.pos_of_ne_zero hc
  have hcb : moveChunk (s.pipes dst) (s.pipes src) count ≤ ((s.pipes src).buffers (s.pipes src).head).len :=
    le_trans (min_le_left _ _) (min_le_right _ _)
  obtain ⟨hr1, hb1⟩ := hsrc.share_front h0
  obtain ⟨hp1, hu1⟩ := hs.pages_ok.share_front hcons hb1 rfl
  obtain ⟨hr2, hb2⟩ := (hs.ring_ok dst).move_dst hsrc h0 hnr hc
  rw [← hrd] at hr2 hb2
  have hp2 := hp1.push (i := dst) (b := sharedPrefix ((s.pipes src).buffers (s.pipes src).head)
      (moveChunk (s.pipes dst) (s.pipes src) count))
    (by rw [hb2, setPipe_pipes_ne (Ne.symm hne)]) (by rw [hrd, setPipe_pipes_ne (Ne.symm hne)]) hu1
    (fun h => nomatch h)
  have hcb1 : moveChunk (s.pipes dst) (s.pipes src) count ≤
      (Function.update (s.pipes src).buffers (s.pipes src).head
        (sharedBuf ((s.pipes src).buffers (s.pipes src).head)) (s.pipes src).head).len := by
    rw [Function.update_self]; exact hcb
  obtain ⟨hr3, hcontent3, -⟩ := pipefsBufferConsumeLocked_spec s.mem hr1 h0 hcpos hcb1
  rw [← hrs] at hr3 hcontent3
  have hpages : PagesOk ((s.setPipe src (pipefsMoveOneLocked (s.pipes dst) (s.pipes src) count refOk).src).setPipe
      dst (pipefsMoveOneLocked (s.pipes dst) (s.pipes src) count refOk).dst) := by
    rw [hrs, setPipe_comm _ hne]
    apply PagesOk.consume _ hr1 h0 hcpos
    rw [← setPipe_comm _ hne]
    exact hp2
  have htake : memRead s.mem ((s.pipes src).buffers (s.pipes src).head).phys
      ((s.pipes src).buffers (s.pipes src).head).offset (moveChunk (s.pipes dst) (s.pipes src) count) =
      (content s.mem (s.pipes src)).take (moveChunk (s.pipes dst) (s.pipes src) count) := by
    rw [content_eq_flatMap, hcons, List.flatMap_cons, List.take_append_of_le_length (by simpa using hcb)]
    exact (take_memRead hcb).symm
  refine ⟨⟨fun j => ?_, hpages⟩, ?_⟩
  · by_cases hjd : j = dst
    · subst hjd; rw [setPipe_pipes_self]; exact hr2
    by_cases hjs : j = src
    · subst hjs; rw [setPipe_pipes_ne hjd, setPipe_pipes_self]; exact hr3
    · rw [setPipe_pipes_ne hjd, setPipe_pipes_ne hjs]; exact hs.ring_ok j
  · apply conserves_two (s := s) src dst _ rfl (hpipes2 _ _) _ _ (hothers _)
    · simp only [onlyAt_self, onlyAt_ne _ hne, List.append_nil, hsrc2]
      rw [hcontent3, content_share_front s.mem hsrc h0, htake, List.take_append_drop]
    · simp only [onlyAt_self, onlyAt_ne _ (Ne.symm hne), List.nil_append, setPipe_pipes_self]
      rw [content_eq_flatMap s.mem (pipefsMoveOneLocked (s.pipes dst) (s.pipes src) count refOk).dst, hb2,
        List.flatMap_append, List.flatMap_singleton, ← content_eq_flatMap]
      rfl

end MoveStep

end Naos.Pipe
