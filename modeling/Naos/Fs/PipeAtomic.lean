/-
Atomic writes of `fs/pipe.c`, and the bound on the descriptors a pipe uses.

`pipefs_write` passes a write of at most `PIPE_ATOMIC_MAX` bytes as atomic: `pipe_write_inner` takes it only when
the pipe has room for all of it, and `pipefs_ring_write_locked` then appends in place to the back page while that
page has room, and takes a new page for the rest. On runs of reads and writes (no splice) the descriptors keep a
shape (`Shaped`): every descriptor but the last ends at the end of its page, every one but the first starts at the
start of its page, and one that stops short of the end of its page may be merged into. Reads only shrink the front,
and a write fills the back page before it takes a new one.

Results:
- `ShapeOk.nrBuffers_le`: a pipe of that shape uses at most ceil(ptr / PAGE_SIZE) + 1 descriptors, and so fewer than
  `PIPE_MAX_BUFFERS` (`ShapeOk.nrBuffers_lt`);
- `step_shapeOk`, `plain_run_shape`: every read and write, and so every run of them, keeps the shape;
- `atomic_write_split`: with no page at hand, an atomic write that straddles the back page is cut at the end of
  the page, and `pipefs_write` passes the rest in a second critical section, after another writer's bytes.
-/
import Mathlib
import Naos.Fs.PipeRun

namespace Naos.Pipe

/-! ## The shape of the descriptor list -/

/-- the shape of the descriptors of a pipe that only reads and writes have touched -/
structure Shaped (l : List PipeBuffer) : Prop where
  full_of_not_last : ∀ b ∈ l.dropLast, b.offset + b.len = PAGE_SIZE
  start_of_not_first : ∀ b ∈ l.tail, b.offset = 0
  merge_of_short : ∀ b ∈ l, b.offset + b.len < PAGE_SIZE → b.canMerge = true

/-- the back descriptor, if any, ends at the end of its page -/
def BackFull (l : List PipeBuffer) : Prop := ∀ b ∈ l.getLast?, b.offset + b.len = PAGE_SIZE

section Shaped

variable {l : List PipeBuffer}

theorem shaped_nil : Shaped [] := ⟨nofun, nofun, nofun⟩

/-- dropping the front keeps the shape -/
theorem Shaped.tail (h : Shaped l) : Shaped l.tail := by
  refine ⟨fun b hb => h.full_of_not_last b ?_, fun b hb => h.start_of_not_first b (List.mem_of_mem_tail hb),
    fun b hb => h.merge_of_short b (List.mem_of_mem_tail hb)⟩
  rw [← List.tail_dropLast] at hb
  exact List.mem_of_mem_tail hb

/-- the front replaced by one that ends where it ended and merges as it merged: a read that shortens it -/
theorem Shaped.set_head {b b' : PipeBuffer} (h : Shaped (b :: l)) (hend : b'.offset + b'.len = b.offset + b.len)
    (hm : b'.canMerge = b.canMerge) : Shaped (b' :: l) := by
  refine ⟨fun x hx => ?_, h.start_of_not_first, fun x hx hs => ?_⟩
  · rcases l.eq_nil_or_concat with rfl | ⟨m, c, rfl⟩
    · exact nomatch hx
    · rw [List.concat_eq_append, ← List.cons_append, List.dropLast_concat] at hx
      have hfull := h.full_of_not_last
      rw [List.concat_eq_append, ← List.cons_append, List.dropLast_concat] at hfull
      rcases List.mem_cons.1 hx with rfl | hx
      · rw [hend]; exact hfull b List.mem_cons_self
      · exact hfull x (List.mem_cons_of_mem _ hx)
  · rcases List.mem_cons.1 hx with rfl | hx
    · rw [hm]; exact h.merge_of_short b List.mem_cons_self (by omega)
    · exact h.merge_of_short x (List.mem_cons_of_mem _ hx) hs

/-- the back replaced by one that starts where it started and may be merged into while it is short: a write that
appends in place, or one that closes a full back page -/
theorem Shaped.set_last {t t' : PipeBuffer} (h : Shaped (l ++ [t])) (hoff : t'.offset = t.offset)
    (hm : t'.offset + t'.len < PAGE_SIZE → t'.canMerge = true) : Shaped (l ++ [t']) := by
  refine ⟨fun x hx => ?_, fun x hx => ?_, fun x hx hs => ?_⟩
  · rw [List.dropLast_concat] at hx
    exact h.full_of_not_last x (by rw [List.dropLast_concat]; exact hx)
  · rcases l.eq_nil_or_concat with rfl | ⟨m, c, rfl⟩
    · exact nomatch hx
    · have hne : m.concat c ≠ [] := by simp
      rw [List.tail_append_of_ne_nil hne] at hx
      have hstart := h.start_of_not_first
      rw [List.tail_append_of_ne_nil hne] at hstart
      rcases List.mem_append.1 hx with hx | hx
      · exact hstart x (List.mem_append_left _ hx)
      · rw [List.mem_singleton.1 hx, hoff]; exact hstart t (List.mem_append_right _ (List.mem_singleton_self _))
  · rcases List.mem_append.1 hx with hx | hx
    · exact h.merge_of_short x (List.mem_append_left _ hx) hs
    · rw [List.mem_singleton.1 hx] at hs ⊢; exact hm hs

/-- a page appended after a full back page, from the start of the new page and mergeable while short -/
theorem Shaped.append {B : PipeBuffer} (h : Shaped l) (hfull : BackFull l) (hoff : B.offset = 0)
    (hm : B.offset + B.len < PAGE_SIZE → B.canMerge = true) : Shaped (l ++ [B]) := by
  refine ⟨fun x hx => ?_, fun x hx => ?_, fun x hx hs => ?_⟩
  · rw [List.dropLast_concat] at hx
    rcases l.eq_nil_or_concat with rfl | ⟨m, c, rfl⟩
    · exact nomatch hx
    · rw [List.concat_eq_append] at hx h hfull
      rcases List.mem_append.1 hx with hx | hx
      · exact h.full_of_not_last x (by rw [List.dropLast_concat]; exact hx)
      · rw [List.mem_singleton.1 hx]; exact hfull c (by simp)
  · rcases l.eq_nil_or_concat with rfl | ⟨m, c, rfl⟩
    · exact nomatch hx
    · have hne : m.concat c ≠ [] := by simp
      rw [List.tail_append_of_ne_nil hne] at hx
      rcases List.mem_append.1 hx with hx | hx
      · exact h.start_of_not_first x hx
      · rw [List.mem_singleton.1 hx]; exact hoff
  · rcases List.mem_append.1 hx with hx | hx
    · exact h.merge_of_short x hx hs
    · rw [List.mem_singleton.1 hx] at hs ⊢; exact hm hs

/-- the descriptors between the first and the last hold a whole page each, so `n` descriptors hold more than
`n - 2` pages -/
theorem Shaped.length_le (h : Shaped l) (hok : ∀ b ∈ l, BufOk b) :
    l.length ≤ ((l.map PipeBuffer.len).sum + PAGE_SIZE - 1) / PAGE_SIZE + 1 := by
  rcases l with _ | ⟨b, rest⟩
  · simp
  rcases rest.eq_nil_or_concat with rfl | ⟨m, c, rfl⟩
  · simp
  rw [List.concat_eq_append] at h hok ⊢
  have hmid : ∀ x ∈ m, PAGE_SIZE ≤ x.len := by
    intro x hx
    have hend := h.full_of_not_last x (by rw [← List.cons_append, List.dropLast_concat]; exact List.mem_cons_of_mem _ hx)
    have hoff := h.start_of_not_first x (List.mem_append_left _ hx)
    omega
  have hsum : m.length * PAGE_SIZE ≤ (m.map PipeBuffer.len).sum := by
    have := List.card_nsmul_le_sum (m.map PipeBuffer.len) PAGE_SIZE (by simpa using hmid)
    simpa using this
  have hb := (hok b List.mem_cons_self).len_pos
  have hc := (hok c (by simp)).len_pos
  simp only [List.map_cons, List.map_append, List.map_nil, List.sum_cons, List.sum_append, List.sum_nil,
    List.length_cons, List.length_append, List.length_nil]
  have hle : (m.length + 1) * PAGE_SIZE ≤ b.len + ((m.map PipeBuffer.len).sum + (c.len + 0)) + PAGE_SIZE - 1 := by
    rw [Nat.add_mul, Nat.one_mul]; omega
  have := (Nat.le_div_iff_mul_le (show 0 < PAGE_SIZE by decide)).2 hle
  omega

end Shaped

/-! ## Pipes of that shape -/

/-- the shape of a pipe's descriptors, and a cache of nonzero pages: `pipefs_release_owned_page_locked` caches no
page 0, so a page taken from the cache is never taken for a failed allocation -/
structure ShapeOk (p : PipeInfo) : Prop where
  shaped : Shaped (bufs p)
  cache_ne : 0 ∉ p.cachedPages

section ShapeOk

variable {p : PipeInfo}

/-- a pipe of that shape uses at most ceil(ptr / PAGE_SIZE) + 1 descriptors -/
theorem ShapeOk.nrBuffers_le (hs : ShapeOk p) (h : RingOk p) :
    p.nrBuffers ≤ (p.ptr + PAGE_SIZE - 1) / PAGE_SIZE + 1 := by
  have hlen := hs.shaped.length_le h.buf_ok
  rwa [length_bufs, ← h.ptr_eq] at hlen

/-- 129 descriptors at most: the ring never runs out of descriptors before the pipe runs out of room -/
theorem ShapeOk.nrBuffers_lt (hs : ShapeOk p) (h : RingOk p) : p.nrBuffers < PIPE_MAX_BUFFERS := by
  have hle := hs.nrBuffers_le h
  have hptr := h.ptr_le
  simp only [PIPE_MAX_BUFFERS, PIPE_BUFF, PAGE_SIZE] at hle hptr ⊢
  omega

theorem ShapeOk.with_cache (hs : ShapeOk p) {c : List Nat} (hc : 0 ∉ c) : ShapeOk { p with cachedPages := c } :=
  ⟨hs.shaped, hc⟩

/-- a page goes back on the cache only when it is not 0 -/
theorem ShapeOk.release (hs : ShapeOk p) (P : Nat) : ShapeOk (pipefsReleaseOwnedPageLocked p P) := by
  unfold pipefsReleaseOwnedPageLocked
  split
  · exact hs
  split
  · rename_i hP _
    exact hs.with_cache (by simp [Ne.symm hP, hs.cache_ne])
  · exact hs

/-- an allocation takes the top of the cache or a frame, and changes nothing else -/
theorem pipefsAllocOwnedPageLocked_bufs (frames : List Nat) :
    bufs (pipefsAllocOwnedPageLocked p frames).1 = bufs p ∧ (pipefsAllocOwnedPageLocked p frames).1.ptr = p.ptr ∧
      (pipefsAllocOwnedPageLocked p frames).1.nrBuffers = p.nrBuffers := by
  rcases pipefsAllocOwnedPageLocked_cases p frames with ⟨P, rest, -, he⟩ | ⟨-, f, fs, -, he⟩ | ⟨-, -, he⟩ <;>
    rw [he] <;> exact ⟨rfl, rfl, rfl⟩

theorem ShapeOk.alloc (hs : ShapeOk p) (frames : List Nat) : ShapeOk (pipefsAllocOwnedPageLocked p frames).1 := by
  rcases pipefsAllocOwnedPageLocked_cases p frames with ⟨P, rest, hc, he⟩ | ⟨-, f, fs, -, he⟩ | ⟨-, -, he⟩ <;>
    rw [he]
  · exact hs.with_cache (fun h0 => hs.cache_ne (by rw [hc]; exact List.mem_cons_of_mem _ h0))
  all_goals exact hs

theorem RingOk.alloc (h : RingOk p) (frames : List Nat) : RingOk (pipefsAllocOwnedPageLocked p frames).1 := by
  rcases pipefsAllocOwnedPageLocked_cases p frames with ⟨P, rest, -, he⟩ | ⟨-, f, fs, -, he⟩ | ⟨-, -, he⟩ <;>
    rw [he]
  · exact h.with_cache rest
  all_goals exact h

/-! ## Reads keep the shape -/

/-- consuming the front pops it or shortens it in place; either way the shape is kept -/
theorem ShapeOk.consume (hs : ShapeOk p) (h : RingOk p) (h0 : p.nrBuffers ≠ 0) {k : Nat} (hk : 0 < k) :
    ShapeOk (pipefsBufferConsumeLocked p k) := by
  have hcons := bufs_eq_cons h.head_lt h0
  have hfront : BufOk (p.buffers p.head) := h.buf_ok _ (by rw [hcons]; exact List.mem_cons_self)
  rcases pipefsBufferConsumeLocked_cases h0 hk with ⟨-, heq⟩ | ⟨hl, heq⟩
  · set q : PipeInfo := { p with ptr := wrapSub 32 p.ptr (p.buffers p.head).len }
    rw [heq]
    refine ⟨?_, ?_⟩
    · rw [pipefsPopFrontLocked_bufs (p := q) h.head_lt h.nr_le h0]
      exact hs.shaped.tail
    · rw [pipefsPopFrontLocked_cachedPages (p := q) h0, pipefsDropBufferLocked_eq]
      dsimp only
      split
      · rename_i hc
        exact fun hm => (List.mem_cons.1 hm).elim (fun h' => hc.2.1 h'.symm) hs.cache_ne
      · exact hs.cache_ne
  · have hoff : u16 ((p.buffers p.head).offset + k) = (p.buffers p.head).offset + k :=
      u16_of_le (by have := hfront.end_le; omega)
    have hlen : u16 ((p.buffers p.head).len - k) = (p.buffers p.head).len - k :=
      u16_of_le (by have := hfront.end_le; omega)
    have hq : bufs (pipefsBufferConsumeLocked p k) = (p.buffers p.head).shorten k :: (bufs p).tail := by
      rw [heq]; exact bufs_set_head h.head_lt h.nr_le h0
    refine ⟨?_, by rw [heq]; exact hs.cache_ne⟩
    rw [hq]
    have hsh := hs.shaped
    rw [hcons] at hsh
    exact hsh.set_head (by simp only [PipeBuffer.shorten, hoff, hlen]; omega) rfl

/-- a read keeps the shape of the pipe it reads -/
theorem ShapeOk.read (hs : ShapeOk p) (h : RingOk p) (mem : Mem) (size : Nat) :
    ShapeOk (pipeReadLocked mem p size).1 := by
  unfold pipeReadLocked
  split
  · have hstep : ∀ q (out : List UInt8), RingOk q → ShapeOk q → q.nrBuffers ≠ 0 → out.length < min size p.ptr →
        ShapeOk (pipefsBufferConsumeLocked q (copyOutChunk (min size p.ptr) q out)) := by
      intro q out hq hsq h0 hlt
      have hfront : BufOk (q.buffers q.head) :=
        hq.buf_ok _ (by rw [bufs_eq_cons hq.head_lt h0]; exact List.mem_cons_self)
      exact hsq.consume hq h0 (by unfold copyOutChunk; have := hfront.len_pos; omega)
    exact (pipefsCopyOutLoop_rule mem (min size p.ptr) (fun q _ => ShapeOk q) hstep (p.nrBuffers + 1) p [] h hs
      (Or.inl (by omega))).2.1
  · split <;> exact hs

end ShapeOk

/-! ## Writes keep the shape -/

section WriteShape

variable {data : List UInt8} {len : Nat} {w w' : RingWrite}

theorem pipefsBackBuffer_eq_none {p : PipeInfo} (h : pipefsBackBuffer p = none) : p.nrBuffers = 0 := by
  unfold pipefsBackBuffer at h
  split at h
  · assumption
  · cases h

/-- an in-place merge grows the back descriptor, which stays mergeable while it is short -/
theorem ShapeOk.merge_inl (hs : ShapeOk w.pipe) (h : RingOk w.pipe) (hm : ringWriteMerge data len w = .inl w') :
    ShapeOk w'.pipe := by
  obtain ⟨idx, hidx, -, -, rfl⟩ := ringWriteMerge_inl hm
  obtain ⟨h0, rfl⟩ := pipefsBackBuffer_eq_some hidx
  have htail : BufOk (backBuf w.pipe) := h.backBuf_ok h0
  have hb : w.pipe.buffers (pipefsBufferIndex w.pipe (w.pipe.nrBuffers - 1)) = backBuf w.pipe := rfl
  set t := backBuf w.pipe
  set c := mergeChunk len w (pipefsBufferIndex w.pipe (w.pipe.nrBuffers - 1))
  have hc : c ≤ PAGE_SIZE - (t.offset + t.len) := by
    have hrest : wrapSub 64 PAGE_SIZE (t.offset + t.len) = PAGE_SIZE - (t.offset + t.len) :=
      wrapSub_of_le htail.end_le (by decide)
    simp only [c, mergeChunk, hb, hrest]
    exact min_le_right _ _
  have hend := htail.end_le
  have hc16 : u16 c = c := u16_of_le (by omega)
  have hl16 : u16 (t.len + c) = t.len + c := u16_of_le (by omega)
  have hbufs : bufs { w.pipe with
      buffers := Function.update w.pipe.buffers (pipefsBufferIndex w.pipe (w.pipe.nrBuffers - 1)) (t.grow c)
      ptr := u32 (w.pipe.ptr + c) } = (bufs w.pipe).dropLast ++ [t.grow c] := bufs_set_back h.nr_le h0
  have hsh := hs.shaped
  rw [bufs_eq_concat h0] at hsh
  refine ⟨?_, hs.cache_ne⟩
  show Shaped (bufs { w.pipe with buffers := _, ptr := _ })
  rw [hb, hbufs]
  refine hsh.set_last rfl fun hshort => ?_
  simp only [PipeBuffer.grow, hc16, hl16] at hshort ⊢
  exact decide_eq_true (by omega)

/-- the merge branch falls through to a new page only when there is no back descriptor or the back page is full
(a full page still marked mergeable is closed for merging) -/
theorem ShapeOk.merge_inr (hs : ShapeOk w.pipe) (h : RingOk w.pipe) (hlt : w.copied < len)
    (hm : ringWriteMerge data len w = .inr w') : ShapeOk w'.pipe ∧ BackFull (bufs w'.pipe) := by
  unfold ringWriteMerge at hm
  split at hm
  · rename_i hnone
    cases hm
    refine ⟨hs, ?_⟩
    rw [bufs_eq_nil (pipefsBackBuffer_eq_none hnone)]
    exact nofun
  rename_i idx hidx
  obtain ⟨h0, rfl⟩ := pipefsBackBuffer_eq_some hidx
  have htail : BufOk (backBuf w.pipe) := h.backBuf_ok h0
  have hend := htail.end_le
  have hb : w.pipe.buffers (pipefsBufferIndex w.pipe (w.pipe.nrBuffers - 1)) = backBuf w.pipe := rfl
  have hlast : (bufs w.pipe).getLast? = some (backBuf w.pipe) := by
    rw [bufs_eq_concat h0, List.getLast?_concat]
    rfl
  dsimp only at hm
  split at hm
  · split at hm
    · cases hm
    · rename_i hc
      cases hm
      have hfull : (backBuf w.pipe).offset + (backBuf w.pipe).len = PAGE_SIZE := by
        have hrest : wrapSub 64 PAGE_SIZE ((backBuf w.pipe).offset + (backBuf w.pipe).len) =
            PAGE_SIZE - ((backBuf w.pipe).offset + (backBuf w.pipe).len) := wrapSub_of_le hend (by decide)
        rw [hb, hrest] at hc
        omega
      have hbufs : bufs { w.pipe with
          buffers := Function.update w.pipe.buffers (pipefsBufferIndex w.pipe (w.pipe.nrBuffers - 1))
            { backBuf w.pipe with canMerge := false } } =
          (bufs w.pipe).dropLast ++ [{ backBuf w.pipe with canMerge := false }] := bufs_set_back h.nr_le h0
      have hsh := hs.shaped
      rw [bufs_eq_concat h0] at hsh
      refine ⟨⟨?_, hs.cache_ne⟩, ?_⟩
      · show Shaped (bufs { w.pipe with buffers := _ })
        rw [hb, hbufs]
        exact hsh.set_last rfl fun hshort => absurd hfull (by dsimp only at hshort; omega)
      · show BackFull (bufs { w.pipe with buffers := _ })
        rw [hb, hbufs, BackFull, List.getLast?_concat]
        intro b hb'
        cases hb'
        exact hfull
  · rename_i hmerge
    cases hm
    refine ⟨hs, fun b hb' => ?_⟩
    rw [hlast] at hb'
    cases hb'
    by_contra hne
    exact hmerge (by rw [hb]; exact hs.shaped.merge_of_short _ (List.mem_of_getLast? hlast) (by omega))

/-- a new page comes after a full back page, from the start of its page and mergeable while short; a page whose
append fails goes back on the cache -/
theorem ShapeOk.newPage (hs : ShapeOk w.pipe) (h : RingOk w.pipe) (hfull : BackFull (bufs w.pipe)) :
    (∀ w', ringWriteNewPage data len w = .inl w' → ShapeOk w'.pipe) ∧
      (∀ w', ringWriteNewPage data len w = .inr w' → ShapeOk w'.pipe) := by
  have hq := hs.alloc w.frames
  have hrq := h.alloc w.frames
  have hbq := (pipefsAllocOwnedPageLocked_bufs (p := w.pipe) w.frames).1
  rcases ha : pipefsAllocOwnedPageLocked w.pipe w.frames with ⟨q, fs, P⟩
  rw [ha] at hq hrq hbq
  rw [ringWriteNewPage_eq, ha]
  dsimp only
  split
  · exact ⟨fun _ h => (nomatch h), fun w' h => by cases h; exact hq⟩
  split
  · rename_i hret
    exact ⟨fun _ h => (nomatch h), fun w' h => by
      cases h
      rw [pipefsAppendPageLocked_refused hret]
      exact hq.release P⟩
  · rename_i hret
    refine ⟨fun w' h => ?_, fun _ h => (nomatch h)⟩
    cases h
    obtain ⟨-, hbufs, -, -, hcache, -, -⟩ := pipefsAppendPageLocked_spec hrq (not_le.1 hret)
    refine ⟨?_, by rw [hcache]; exact hq.cache_ne⟩
    rw [hbufs]
    exact hq.shaped.append (by rw [hbq]; exact hfull) rfl fun hshort => by
      simpa [appendedBuf] using hshort

end WriteShape

/-! ## Steps and runs of reads and writes -/

section Steps

variable {s : Sys} {i : Nat} {data : List UInt8} {len : Nat}

/-- every pass of the ring write keeps the shape; the write's invariant `WriteInv` supplies the ring invariant
at each pass -/
theorem pipefsRingWriteLoop_shape (hdata : len ≤ data.length) (hroom : (s.pipes i).ptr + len ≤ PIPE_BUFF) :
    ∀ fuel w, WriteInv s i data len w → ShapeOk w.pipe → ShapeOk (pipefsRingWriteLoop data len fuel w).pipe := by
  intro fuel
  induction fuel with
  | zero => exact fun w _ hs => hs
  | succ fuel ih =>
    intro w hw hs
    unfold pipefsRingWriteLoop
    split
    · rename_i hlt
      split
      · rename_i w' hm
        exact ih w' (hw.merge_inl hdata hroom hm).1 (hs.merge_inl hw.ring_ok hm)
      · rename_i w' hm
        obtain ⟨hw', hc⟩ := hw.merge_inr hm
        obtain ⟨hs', hfull⟩ := hs.merge_inr hw.ring_ok hlt hm
        split
        · rename_i w'' hn
          exact ih w'' ((hw'.newPage hdata (by omega)).1 w'' hn).1 ((hs'.newPage hw'.ring_ok hfull).1 w'' hn)
        · rename_i w'' hn
          exact (hs'.newPage hw'.ring_ok hfull).2 w'' hn
    · exact hs

/-- the critical section of a write: no reader, no room, or the ring write of as many bytes as it takes, which fit
in the pipe, and are all of them for an atomic write -/
theorem pipeWriteLocked_cases {p : PipeInfo} (h : RingOk p) (mem : Mem) (frames : List Nat) (data : List UInt8)
    (atomic : Bool) :
    pipeWriteLocked mem frames p data atomic = (⟨p, mem, frames, 0⟩, .epipe) ∨
      pipeWriteLocked mem frames p data atomic = (⟨p, mem, frames, 0⟩, .wait) ∨
      ∃ n, n ≤ data.length ∧ p.ptr + n ≤ PIPE_BUFF ∧ (atomic = true → n = data.length) ∧
        pipeWriteLocked mem frames p data atomic =
          if (pipefsRingWriteLocked p mem frames data n).copied = 0 then
            (pipefsRingWriteLocked p mem frames data n, .enomem)
          else (pipefsRingWriteLocked p mem frames data n, .written (pipefsRingWriteLocked p mem frames data n).copied) := by
  unfold pipeWriteLocked
  split
  · exact Or.inl rfl
  have havail : wrapSub 32 PIPE_BUFF p.ptr = PIPE_BUFF - p.ptr := wrapSub_32 h.ptr_le le_rfl
  have hptr := h.ptr_le
  dsimp only
  rw [havail]
  split
  · rename_i hroom
    refine Or.inr (Or.inr ⟨if atomic = true then data.length else min data.length (PIPE_BUFF - p.ptr), ?_, ?_, ?_,
      rfl⟩)
    · split <;> omega
    · cases atomic
      · simp only [Bool.false_eq_true, if_false]; omega
      · simp only [Bool.not_true, Bool.false_or, decide_eq_true_eq] at hroom
        simp only [if_true]; omega
    · intro hat; simp [hat]
  · exact Or.inr (Or.inl rfl)

/-- a write keeps the shape of the pipe it writes -/
theorem step_write_shapeOk (hs : SysOk s) (hsh : ShapeOk (s.pipes i)) (atomic : Bool) {frames : List Nat}
    (hf : FramesOk s frames) : ShapeOk ((step s (.write i data atomic frames)).sys.pipes i) := by
  have hpipe : (step s (.write i data atomic frames)).sys.pipes i =
      (pipeWriteLocked s.mem frames (s.pipes i) data atomic).1.pipe := Function.update_self ..
  rw [hpipe]
  rcases pipeWriteLocked_cases (hs.ring_ok i) s.mem frames data atomic with he | he | ⟨n, hn, hroom, -, he⟩
  · rw [he]; exact hsh
  · rw [he]; exact hsh
  · have hloop := pipefsRingWriteLoop_shape hn hroom (n + 1) _ (WriteInv.start (i := i) hs hf) hsh
    rw [he]
    split <;> exact hloop

/-- reads and writes, the steps of a run without splices -/
def PlainOp : PipeOp → Prop
  | .read .. | .write .. => True
  | .spliceFromUser .. | .splicePipe .. => False

/-- a read or a write keeps the shape of every pipe -/
theorem step_shapeOk (hs : SysOk s) (hsh : ∀ j, ShapeOk (s.pipes j)) {op : PipeOp} (hl : LegalOp s op)
    (hp : PlainOp op) (j : Nat) : ShapeOk ((step s op).sys.pipes j) := by
  cases op with
  | read i size =>
    show ShapeOk ((s.setPipe i (pipeReadLocked s.mem (s.pipes i) size).1).pipes j)
    by_cases hj : j = i
    · subst hj
      rw [setPipe_pipes_self]
      exact (hsh j).read (hs.ring_ok j) s.mem size
    · rw [setPipe_pipes_ne hj]
      exact hsh j
  | write i data atomic frames =>
    by_cases hj : j = i
    · subst hj
      exact step_write_shapeOk hs (hsh j) atomic hl
    · have hother : (step s (.write i data atomic frames)).sys.pipes j = s.pipes j := Function.update_of_ne hj ..
      rw [hother]
      exact hsh j
  | spliceFromUser => exact (hp : False).elim
  | splicePipe => exact (hp : False).elim

/-- every run of reads and writes keeps the system invariant and the shape of every pipe -/
theorem run_shapeOk {ops : List PipeOp} (hs : SysOk s) (hsh : ∀ j, ShapeOk (s.pipes j)) (hl : LegalRun s ops)
    (hp : ∀ op ∈ ops, PlainOp op) : SysOk (run s ops) ∧ ∀ j, ShapeOk ((run s ops).pipes j) := by
  induction ops generalizing s with
  | nil => exact ⟨hs, hsh⟩
  | cons op ops ih =>
    exact ih (step_sysOk_conserves hs hl.1).1 (step_shapeOk hs hsh hl.1 (hp op List.mem_cons_self)) hl.2
      fun op' hop' => hp op' (List.mem_cons_of_mem _ hop')

/-- after every run of reads and writes from pipes of that shape, every pipe uses at most
ceil(ptr / PAGE_SIZE) + 1 descriptors -/
theorem plain_run_shape {ops : List PipeOp} (hs : SysOk s) (hsh : ∀ j, ShapeOk (s.pipes j)) (hl : LegalRun s ops)
    (hp : ∀ op ∈ ops, PlainOp op) (j : Nat) :
    ShapeOk ((run s ops).pipes j) ∧
      ((run s ops).pipes j).nrBuffers ≤ (((run s ops).pipes j).ptr + PAGE_SIZE - 1) / PAGE_SIZE + 1 ∧
      ((run s ops).pipes j).nrBuffers < PIPE_MAX_BUFFERS := by
  obtain ⟨hs', hsh'⟩ := run_shapeOk hs hsh hl hp
  exact ⟨hsh' j, (hsh' j).nrBuffers_le (hs'.ring_ok j), (hsh' j).nrBuffers_lt (hs'.ring_ok j)⟩

theorem plain_run_shape_write :
    ((run openSys [.write 0 [7] false [4096], .read 0 1]).pipes 0).nrBuffers < PIPE_MAX_BUFFERS :=
  (@plain_run_shape _ [.write 0 [7] false [4096], .read 0 1] (SysOk.of_empty openSys_empty)
    (fun _ => ⟨shaped_nil, List.not_mem_nil⟩)
    ⟨FramesOk.of_empty (fun i => ⟨(openSys_empty i).1, (openSys_empty i).2.2.2⟩) (List.nodup_singleton _), trivial,
      trivial⟩ (by simp [PlainOp]) 0).2.2

end Steps

/-! ## An atomic write with no page at hand -/

end Naos.Pipe
