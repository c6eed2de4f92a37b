/-
The ring of one pipe: its invariant and what each helper of `fs/pipe.c` does to the queued bytes.

`RingOk` is the ring invariant of `pipe_info_t`: the head is a slot, at most `PIPE_MAX_BUFFERS` descriptors are
live, `ptr` is the sum of their lengths and at most `PIPE_BUFF`, and each live descriptor holds at least one byte
inside its page, names a page, and may merge only into a page of its own. The byte queue of a pipe is `content`:
the bytes of its live descriptors, front first.

Results, each under `RingOk`:
- `pipefsPopFrontLocked_bufs`, `pipefsBufferConsumeLocked_spec`: popping drops the front descriptor, and consuming
  `k` bytes drops the first `k` bytes of the queue;
- `pipefsCopyOutLoop_rule`: an invariant that one pass of the loop of `pipefs_copy_out_locked` keeps holds when the
  loop ends, and the loop ends by its own test within the fuel it is given;
- `pipefsCopyOutLocked_spec`: a copy-out of `len` bytes hands back the first `len` bytes of the queue and leaves
  the rest;
- `pipefsAppendPageLocked_spec`: a successful append queues the page window at the back.
-/
import Mathlib
import Naos.Fs.Pipe

namespace Naos.Pipe

/-! ## Machine arithmetic that does not wrap -/

theorem u16_of_le {n : Nat} (h : n ≤ PAGE_SIZE) : u16 n = n :=
  Nat.mod_eq_of_lt (by unfold PAGE_SIZE at h; omega)

theorem u32_of_le {n : Nat} (h : n ≤ PIPE_BUFF) : u32 n = n :=
  Nat.mod_eq_of_lt (by unfold PIPE_BUFF at h; omega)

theorem wrapSub_of_le {w a b : Nat} (hb : b ≤ a) (ha : a < 2 ^ w) : wrapSub w a b = a - b := by
  unfold wrapSub
  rw [Nat.mod_eq_of_lt (lt_of_le_of_lt hb ha)]
  have hsum : a + (2 ^ w - b) = a - b + 2 ^ w := by omega
  rw [hsum, Nat.add_mod_right, Nat.mod_eq_of_lt (by omega)]

theorem wrapSub_32 {a b : Nat} (hb : b ≤ a) (ha : a ≤ PIPE_BUFF) : wrapSub 32 a b = a - b :=
  wrapSub_of_le hb (by unfold PIPE_BUFF at ha; omega)

/-! ## Reading and writing pages -/

section Memory

variable {mem : Mem} {P o : Nat}

@[simp] theorem length_memRead (n : Nat) : (memRead mem P o n).length = n := by simp [memRead]

theorem memRead_add (a b : Nat) : memRead mem P o (a + b) = memRead mem P o a ++ memRead mem P (o + a) b := by
  simp only [memRead, List.range_add, List.map_append, List.map_map]
  congr 1
  apply List.map_congr_left
  intro k _
  simp [Function.comp, Nat.add_assoc]

theorem take_memRead {k n : Nat} (h : k ≤ n) : (memRead mem P o n).take k = memRead mem P o k := by
  obtain ⟨d, rfl⟩ := Nat.exists_eq_add_of_le h
  rw [memRead_add, List.take_left' (length_memRead k)]

theorem drop_memRead {k n : Nat} (h : k ≤ n) : (memRead mem P o n).drop k = memRead mem P (o + k) (n - k) := by
  obtain ⟨d, rfl⟩ := Nat.exists_eq_add_of_le h
  rw [memRead_add, List.drop_left' (length_memRead k), Nat.add_sub_cancel_left]

/-- a write elsewhere, or to another part of the page, leaves a read unchanged -/
theorem memRead_memWrite_of_disjoint {Q o' n : Nat} {d : List UInt8} (h : Q ≠ P ∨ o' + n ≤ o ∨ o + d.length ≤ o') :
    memRead (memWrite mem P o d) Q o' n = memRead mem Q o' n := by
  apply List.map_congr_left
  intro k hk
  rw [List.mem_range] at hk
  simp only [memWrite]
  rw [if_neg]
  omega

theorem memRead_memWrite_self (d : List UInt8) : memRead (memWrite mem P o d) P o d.length = d := by
  apply List.ext_getElem (length_memRead _)
  intro k hk _
  have hk' : k < d.length := by simpa using hk
  simp [memRead, memWrite, hk']

theorem memRead_memWrite_of_length {d : List UInt8} {n : Nat} (hd : d.length = n) :
    memRead (memWrite mem P o d) P o n = d := by
  rw [← hd]; exact memRead_memWrite_self d

/-- appending in place: a write right after a window extends it -/
theorem memRead_memWrite_append {o' n : Nat} (d : List UInt8) (h : o' + n = o) :
    memRead (memWrite mem P o d) P o' (n + d.length) = memRead mem P o' n ++ d := by
  rw [memRead_add, memRead_memWrite_of_disjoint (Or.inr (Or.inl h.le)), h, memRead_memWrite_self]

end Memory

/-! ## The live descriptors -/

section Ring

variable {p : PipeInfo}

theorem bufs_eq (p : PipeInfo) : bufs p = Ring.window p.buffers p.head PIPE_MAX_BUFFERS p.nrBuffers := rfl

@[simp] theorem length_bufs : (bufs p).length = p.nrBuffers := Ring.length_window _

theorem content_eq_flatMap (mem : Mem) (p : PipeInfo) : content mem p = (bufs p).flatMap (bufBytes mem) := rfl

@[simp] theorem length_bufBytes (mem : Mem) (b : PipeBuffer) : (bufBytes mem b).length = b.len := by
  simp [bufBytes]

/-- the descriptor set in the next free slot joins the queue at the back -/
theorem bufs_push_set {v : PipeBuffer} (hnr : p.nrBuffers < PIPE_MAX_BUFFERS) :
    Ring.window (Function.update p.buffers (pipefsBufferIndex p p.nrBuffers) v) p.head PIPE_MAX_BUFFERS
      (p.nrBuffers + 1) = bufs p ++ [v] :=
  Ring.window_update_last hnr

/-- the last slot rewritten: the queue with its last descriptor replaced -/
theorem bufs_set_back {v : PipeBuffer} (hnr : p.nrBuffers ≤ PIPE_MAX_BUFFERS) (h0 : p.nrBuffers ≠ 0) :
    Ring.window (Function.update p.buffers (pipefsBufferIndex p (p.nrBuffers - 1)) v) p.head PIPE_MAX_BUFFERS
      p.nrBuffers = (bufs p).dropLast ++ [v] := by
  obtain ⟨n, hn⟩ : ∃ n, p.nrBuffers = n + 1 := ⟨p.nrBuffers - 1, by omega⟩
  have hw : Ring.window (Function.update p.buffers ((p.head + n) % PIPE_MAX_BUFFERS) v) p.head PIPE_MAX_BUFFERS
      (n + 1) = Ring.window p.buffers p.head PIPE_MAX_BUFFERS n ++ [v] := Ring.window_update_last (by omega)
  rw [bufs_eq, hn, Nat.add_sub_cancel, pipefsBufferIndex, hw, Ring.window_succ, List.dropLast_concat]

/-- a slot outside the live ones rewritten: the queue unchanged -/
theorem bufs_set_free {v : PipeBuffer} (hnr : p.nrBuffers < PIPE_MAX_BUFFERS) :
    Ring.window (Function.update p.buffers (pipefsBufferIndex p p.nrBuffers) v) p.head PIPE_MAX_BUFFERS
      p.nrBuffers = bufs p :=
  Ring.window_update_of_ne fun _ hk => Ring.slot_ne hk hnr

/-- the head slot rewritten: the queue with its front descriptor replaced -/
theorem bufs_set_head {v : PipeBuffer} (hhead : p.head < PIPE_MAX_BUFFERS)
    (hnr : p.nrBuffers ≤ PIPE_MAX_BUFFERS) (h0 : p.nrBuffers ≠ 0) :
    Ring.window (Function.update p.buffers p.head v) p.head PIPE_MAX_BUFFERS p.nrBuffers = v :: (bufs p).tail := by
  obtain ⟨n, hn⟩ : ∃ n, p.nrBuffers = n + 1 := ⟨p.nrBuffers - 1, by omega⟩
  rw [bufs_eq, hn, Ring.window_update_head hhead (by omega), Ring.window_succ_eq_cons hhead]
  rfl

/-- the front descriptor is in the head slot -/
theorem bufs_eq_cons (hhead : p.head < PIPE_MAX_BUFFERS) (h0 : p.nrBuffers ≠ 0) :
    bufs p = p.buffers p.head :: (bufs p).tail := by
  obtain ⟨n, hn⟩ : ∃ n, p.nrBuffers = n + 1 := ⟨p.nrBuffers - 1, by omega⟩
  rw [bufs_eq, hn, Ring.window_succ_eq_cons hhead]
  rfl

/-- the back descriptor is in the slot `pipefsBackBuffer` names -/
theorem bufs_eq_concat (h0 : p.nrBuffers ≠ 0) :
    bufs p = (bufs p).dropLast ++ [p.buffers (pipefsBufferIndex p (p.nrBuffers - 1))] := by
  obtain ⟨n, hn⟩ : ∃ n, p.nrBuffers = n + 1 := ⟨p.nrBuffers - 1, by omega⟩
  rw [bufs_eq, hn, Ring.window_succ, List.dropLast_concat, Nat.add_sub_cancel]
  rfl

end Ring

/-! ## The ring invariant -/

/-- a live descriptor: bytes inside its page, a page, and in-place merging only into a page of its own -/
structure BufOk (b : PipeBuffer) : Prop where
  len_pos : 0 < b.len
  end_le : b.offset + b.len ≤ PAGE_SIZE
  phys_ne : b.phys ≠ 0
  merge_owned : b.canMerge = true → b.pageRef = false

/-- the ring invariant of a pipe -/
structure RingOk (p : PipeInfo) : Prop where
  head_lt : p.head < PIPE_MAX_BUFFERS
  nr_le : p.nrBuffers ≤ PIPE_MAX_BUFFERS
  ptr_eq : p.ptr = ((bufs p).map PipeBuffer.len).sum
  ptr_le : p.ptr ≤ PIPE_BUFF
  buf_ok : ∀ b ∈ bufs p, BufOk b

/-- the number of queued bytes is `ptr` -/
theorem RingOk.length_content {p : PipeInfo} (h : RingOk p) (mem : Mem) : (content mem p).length = p.ptr := by
  rw [content_eq_flatMap, List.length_flatMap, h.ptr_eq]
  congr 1
  apply List.map_congr_left
  intro b _
  exact length_bufBytes mem b

/-! ## Pushing, popping and consuming -/

section Helpers

variable {p : PipeInfo}

theorem pipefsPushBufferLocked_of_lt (hnr : p.nrBuffers < PIPE_MAX_BUFFERS) :
    pipefsPushBufferLocked p = some ({ p with
      nrBuffers := p.nrBuffers + 1
      buffers := Function.update p.buffers (pipefsBufferIndex p p.nrBuffers) .zero },
      pipefsBufferIndex p p.nrBuffers) := by
  simp [pipefsPushBufferLocked, Nat.not_le.2 hnr]

theorem pipefsPushBufferLocked_of_le (hnr : PIPE_MAX_BUFFERS ≤ p.nrBuffers) : pipefsPushBufferLocked p = none := by
  simp [pipefsPushBufferLocked, hnr]

/-- dropping a descriptor clears its slot and puts an owned page on the cache when it has room -/
theorem pipefsDropBufferLocked_eq (idx : Nat) :
    pipefsDropBufferLocked p idx = { p with
      cachedPages := (if (p.buffers idx).pageRef = false ∧ (p.buffers idx).phys ≠ 0 ∧
          p.cachedPages.length < PIPE_PAGE_CACHE_MAX then (p.buffers idx).phys :: p.cachedPages else p.cachedPages)
      buffers := Function.update p.buffers idx .zero } := by
  unfold pipefsDropBufferLocked pipefsReleaseOwnedPageLocked
  by_cases hr : (p.buffers idx).pageRef <;> by_cases hz : (p.buffers idx).phys = 0 <;>
    by_cases hc : p.cachedPages.length < PIPE_PAGE_CACHE_MAX <;> simp [hr, hz, hc]

/-- popping keeps everything but the ring and the cache -/
theorem pipefsPopFrontLocked_fields (p : PipeInfo) :
    (pipefsPopFrontLocked p).ptr = p.ptr ∧ (pipefsPopFrontLocked p).readFds = p.readFds ∧
      (pipefsPopFrontLocked p).writeFds = p.writeFds := by
  unfold pipefsPopFrontLocked
  split
  · exact ⟨rfl, rfl, rfl⟩
  · rw [pipefsDropBufferLocked_eq]
    dsimp only
    split <;> exact ⟨rfl, rfl, rfl⟩

theorem pipefsPopFrontLocked_cachedPages (h0 : p.nrBuffers ≠ 0) :
    (pipefsPopFrontLocked p).cachedPages = (pipefsDropBufferLocked p p.head).cachedPages := by
  unfold pipefsPopFrontLocked
  rw [if_neg h0]
  dsimp only
  split <;> rfl

theorem pipefsPopFrontLocked_nrBuffers (p : PipeInfo) : (pipefsPopFrontLocked p).nrBuffers = p.nrBuffers - 1 := by
  unfold pipefsPopFrontLocked
  split
  · omega
  · rw [pipefsDropBufferLocked_eq]
    dsimp only
    split <;> rfl

theorem pipefsPopFrontLocked_head_lt (hhead : p.head < PIPE_MAX_BUFFERS) :
    (pipefsPopFrontLocked p).head < PIPE_MAX_BUFFERS := by
  unfold pipefsPopFrontLocked
  split
  · exact hhead
  · rw [pipefsDropBufferLocked_eq]
    dsimp only
    split
    · exact Nat.succ_pos _
    · exact Nat.mod_lt _ (by decide)

/-- popping drops the front descriptor -/
theorem pipefsPopFrontLocked_bufs (hhead : p.head < PIPE_MAX_BUFFERS) (hnr : p.nrBuffers ≤ PIPE_MAX_BUFFERS)
    (h0 : p.nrBuffers ≠ 0) : bufs (pipefsPopFrontLocked p) = (bufs p).tail := by
  obtain ⟨n, hn⟩ : ∃ n, p.nrBuffers = n + 1 := ⟨p.nrBuffers - 1, by omega⟩
  have htail : (bufs p).tail = Ring.window p.buffers ((p.head + 1) % PIPE_MAX_BUFFERS) PIPE_MAX_BUFFERS n := by
    rw [bufs_eq, hn, Ring.window_tail hhead]
  unfold pipefsPopFrontLocked
  rw [if_neg h0, pipefsDropBufferLocked_eq, htail]
  dsimp only
  split
  · rename_i hz
    simp only [hn, Nat.add_sub_cancel] at hz
    simp [bufs, hn, hz]
  · simp only [bufs, hn, Nat.add_sub_cancel]
    exact Ring.window_next_update_head hhead (by omega)

/-- what `pipefs_buffer_consume_locked` does with a positive count: pop a front it covers, or shorten it -/
theorem pipefsBufferConsumeLocked_cases {k : Nat} (h0 : p.nrBuffers ≠ 0) (hk : 0 < k) :
    ((p.buffers p.head).len ≤ k ∧
        pipefsBufferConsumeLocked p k = pipefsPopFrontLocked { p with ptr := wrapSub 32 p.ptr (p.buffers p.head).len }) ∨
      (k < (p.buffers p.head).len ∧ pipefsBufferConsumeLocked p k = { p with
        buffers := Function.update p.buffers p.head ((p.buffers p.head).shorten k)
        ptr := wrapSub 32 p.ptr k }) := by
  unfold pipefsBufferConsumeLocked
  rw [if_neg (by omega)]
  by_cases hl : (p.buffers p.head).len ≤ k
  · exact Or.inl ⟨hl, by rw [if_pos hl]⟩
  · exact Or.inr ⟨by omega, by rw [if_neg hl]⟩

/-- the bytes of a shortened descriptor are the rest of its bytes -/
theorem bufBytes_shorten (mem : Mem) {b : PipeBuffer} {k : Nat} (hb : BufOk b) (hk : k < b.len) :
    bufBytes mem (b.shorten k) = (bufBytes mem b).drop k := by
  have hoff : u16 (b.offset + k) = b.offset + k := u16_of_le (by have := hb.end_le; omega)
  have hlen : u16 (b.len - k) = b.len - k := u16_of_le (by have := hb.end_le; omega)
  simp only [bufBytes, PipeBuffer.shorten, hoff, hlen]
  rw [drop_memRead hk.le]

theorem BufOk.shorten {b : PipeBuffer} {k : Nat} (hb : BufOk b) (hk : k < b.len) : BufOk (b.shorten k) := by
  have hoff : u16 (b.offset + k) = b.offset + k := u16_of_le (by have := hb.end_le; omega)
  have hlen : u16 (b.len - k) = b.len - k := u16_of_le (by have := hb.end_le; omega)
  refine ⟨?_, ?_, hb.phys_ne, hb.merge_owned⟩ <;> simp only [PipeBuffer.shorten, hoff, hlen]
  · omega
  · have := hb.end_le; omega

/-- consuming `k` bytes of the front, `0 < k ≤ len`, drops the first `k` bytes of the queue -/
theorem pipefsBufferConsumeLocked_spec (mem : Mem) {k : Nat} (h : RingOk p) (h0 : p.nrBuffers ≠ 0) (hk : 0 < k)
    (hkl : k ≤ (p.buffers p.head).len) :
    RingOk (pipefsBufferConsumeLocked p k) ∧
      content mem (pipefsBufferConsumeLocked p k) = (content mem p).drop k ∧
      (pipefsBufferConsumeLocked p k).ptr = p.ptr - k := by
  have hcons := bufs_eq_cons h.head_lt h0
  have hfront : BufOk (p.buffers p.head) := h.buf_ok _ (by rw [hcons]; exact List.mem_cons_self)
  have hsum : p.ptr = (p.buffers p.head).len + (((bufs p).tail).map PipeBuffer.len).sum := by
    rw [h.ptr_eq]; nth_rewrite 1 [hcons]; simp
  have hcontent : content mem p = bufBytes mem (p.buffers p.head) ++ ((bufs p).tail).flatMap (bufBytes mem) := by
    rw [content_eq_flatMap]; nth_rewrite 1 [hcons]; simp
  rcases pipefsBufferConsumeLocked_cases h0 hk with ⟨hl, heq⟩ | ⟨hl, heq⟩
  · have hk' : k = (p.buffers p.head).len := by omega
    subst hk'
    have hsub : wrapSub 32 p.ptr (p.buffers p.head).len = p.ptr - (p.buffers p.head).len :=
      wrapSub_32 (by omega) h.ptr_le
    have hq : bufs (pipefsPopFrontLocked { p with ptr := wrapSub 32 p.ptr (p.buffers p.head).len }) =
        (bufs p).tail := pipefsPopFrontLocked_bufs h.head_lt h.nr_le h0
    have hptr : (pipefsPopFrontLocked { p with ptr := wrapSub 32 p.ptr (p.buffers p.head).len }).ptr =
        p.ptr - (p.buffers p.head).len := by
      rw [(pipefsPopFrontLocked_fields _).1, ← hsub]
    rw [heq]
    refine ⟨⟨pipefsPopFrontLocked_head_lt h.head_lt, ?_, ?_, ?_, ?_⟩, ?_, hptr⟩
    · rw [pipefsPopFrontLocked_nrBuffers]; exact le_trans (Nat.sub_le _ _) h.nr_le
    · rw [hptr, hq]; omega
    · rw [hptr]; exact le_trans (Nat.sub_le _ _) h.ptr_le
    · rw [hq]; exact fun b hb => h.buf_ok b (List.mem_of_mem_tail hb)
    · rw [content_eq_flatMap, hq, hcontent, List.drop_left' (length_bufBytes mem _)]
  · have hsub : wrapSub 32 p.ptr k = p.ptr - k := wrapSub_32 (by omega) h.ptr_le
    have hq : bufs (pipefsBufferConsumeLocked p k) = (p.buffers p.head).shorten k :: (bufs p).tail := by
      rw [heq]; exact bufs_set_head h.head_lt h.nr_le h0
    have hptr : (pipefsBufferConsumeLocked p k).ptr = p.ptr - k := by rw [heq]; exact hsub
    refine ⟨⟨?_, ?_, ?_, ?_, ?_⟩, ?_, hptr⟩
    · rw [heq]; exact h.head_lt
    · rw [heq]; exact h.nr_le
    · have hsl : ((p.buffers p.head).shorten k).len = (p.buffers p.head).len - k :=
        u16_of_le (by have := hfront.end_le; omega)
      rw [hptr, hq, List.map_cons, List.sum_cons, hsl]
      omega
    · rw [hptr]; exact le_trans (Nat.sub_le _ _) h.ptr_le
    · rw [hq]
      intro b hb
      rcases List.mem_cons.1 hb with rfl | hb
      · exact hfront.shorten hl
      · exact h.buf_ok b (List.mem_of_mem_tail hb)
    · rw [content_eq_flatMap, hq, hcontent, List.flatMap_cons, bufBytes_shorten mem hfront hl,
        List.drop_append_of_le_length (by simp; omega)]

end Helpers

/-! ## Copying out -/

section CopyOut

variable (mem : Mem) (len : Nat)

/-- how the loop of `pipefs_copy_out_locked` may end: with the ring invariant and `Q`, by its own test -/
def CopyOutEnd (Q : PipeInfo → List UInt8 → Prop) (r : PipeInfo × List UInt8) : Prop :=
  RingOk r.1 ∧ Q r.1 r.2 ∧ (len ≤ r.2.length ∨ r.1.nrBuffers = 0)

/-- the bytes one pass copies: the front's first `min (len - copied) len` bytes -/
def copyOutChunk (q : PipeInfo) (out : List UInt8) : Nat := min (len - out.length) (q.buffers q.head).len

/-- the invariant rule of the copy-out loop: what one pass keeps holds at the end, and the loop ends by its test as
long as the fuel exceeds the number of live descriptors (each pass but the last empties one) -/
theorem pipefsCopyOutLoop_rule (Q : PipeInfo → List UInt8 → Prop)
    (hstep : ∀ q out, RingOk q → Q q out → q.nrBuffers ≠ 0 → out.length < len →
      Q (pipefsBufferConsumeLocked q (copyOutChunk len q out))
        (out ++ memRead mem (q.buffers q.head).phys (q.buffers q.head).offset (copyOutChunk len q out))) :
    ∀ fuel q out, RingOk q → Q q out → (q.nrBuffers < fuel ∨ len ≤ out.length) →
      CopyOutEnd len Q (pipefsCopyOutLoop mem len fuel q out) := by
  intro fuel
  induction fuel with
  | zero =>
    intro q out hq hQ hfuel
    rw [pipefsCopyOutLoop]
    exact ⟨hq, hQ, Or.inl (by dsimp only; omega)⟩
  | succ fuel ih =>
    intro q out hq hQ hfuel
    unfold pipefsCopyOutLoop
    split
    · rename_i hcond
      have h0 := hcond.2
      have hfront : BufOk (q.buffers q.head) :=
        hq.buf_ok _ (by rw [bufs_eq_cons hq.head_lt h0]; exact List.mem_cons_self)
      have hpos : 0 < copyOutChunk len q out := by
        unfold copyOutChunk; have := hfront.len_pos; omega
      have hspec := pipefsBufferConsumeLocked_spec mem hq h0 hpos (min_le_right _ _)
      apply ih _ _ hspec.1 (hstep q out hq hQ h0 hcond.1)
      rcases pipefsBufferConsumeLocked_cases h0 hpos with ⟨hl, heq⟩ | ⟨hl, _⟩
      · left
        rw [heq, pipefsPopFrontLocked_nrBuffers]
        dsimp only
        omega
      · right
        unfold copyOutChunk at hl ⊢
        simp only [List.length_append, length_memRead]
        omega
    · rename_i hcond
      refine ⟨hq, hQ, ?_⟩
      by_cases hl : len ≤ out.length
      · exact Or.inl hl
      · exact Or.inr (by simp only [not_and, not_not] at hcond; exact hcond (by omega))

/-- a copy-out of `len` bytes hands back the first `len` bytes of the queue and leaves the rest -/
theorem pipefsCopyOutLocked_spec {p : PipeInfo} (h : RingOk p) :
    RingOk (pipefsCopyOutLocked mem p len).1 ∧ (pipefsCopyOutLocked mem p len).2 = (content mem p).take len ∧
      content mem (pipefsCopyOutLocked mem p len).1 = (content mem p).drop len := by
  let Q : PipeInfo → List UInt8 → Prop := fun q out => out ++ content mem q = content mem p ∧ out.length ≤ len
  have hstep : ∀ q out, RingOk q → Q q out → q.nrBuffers ≠ 0 → out.length < len →
      Q (pipefsBufferConsumeLocked q (copyOutChunk len q out))
        (out ++ memRead mem (q.buffers q.head).phys (q.buffers q.head).offset (copyOutChunk len q out)) := by
    intro q out hq ⟨hQ, _⟩ h0 hlt
    have hfront : BufOk (q.buffers q.head) :=
      hq.buf_ok _ (by rw [bufs_eq_cons hq.head_lt h0]; exact List.mem_cons_self)
    have hpos : 0 < copyOutChunk len q out := by unfold copyOutChunk; have := hfront.len_pos; omega
    have hle : copyOutChunk len q out ≤ (q.buffers q.head).len := min_le_right _ _
    have hspec := pipefsBufferConsumeLocked_spec mem hq h0 hpos hle
    have htake : memRead mem (q.buffers q.head).phys (q.buffers q.head).offset (copyOutChunk len q out) =
        (content mem q).take (copyOutChunk len q out) := by
      rw [content_eq_flatMap, bufs_eq_cons hq.head_lt h0, List.flatMap_cons,
        List.take_append_of_le_length (by simpa using hle)]
      exact (take_memRead hle).symm
    refine ⟨?_, ?_⟩
    · rw [hspec.2.1, htake, List.append_assoc, List.take_append_drop, hQ]
    · simp only [List.length_append, length_memRead]
      unfold copyOutChunk; omega
  obtain ⟨hr, ⟨happ, hlen⟩, hend⟩ :=
    pipefsCopyOutLoop_rule mem len Q hstep (p.nrBuffers + 1) p [] h ⟨by simp, by simp⟩ (Or.inl (by omega))
  set r := pipefsCopyOutLoop mem len (p.nrBuffers + 1) p []
  have hsplit : content mem p = r.2 ++ content mem r.1 := happ.symm
  refine ⟨hr, ?_, ?_⟩
  · rcases hend with hend | hend
    · have hl : r.2.length = len := le_antisymm hlen hend
      rw [pipefsCopyOutLocked, hsplit, List.take_left' hl]
    · have hempty : content mem r.1 = [] := by
        rw [← List.length_eq_zero_iff, hr.length_content, hr.ptr_eq, bufs_eq, hend]; rfl
      rw [pipefsCopyOutLocked, hsplit, hempty, List.append_nil, List.take_of_length_le hlen]
  · rcases hend with hend | hend
    · have hl : r.2.length = len := le_antisymm hlen hend
      rw [pipefsCopyOutLocked, hsplit, List.drop_left' hl]
    · have hempty : content mem r.1 = [] := by
        rw [← List.length_eq_zero_iff, hr.length_content, hr.ptr_eq, bufs_eq, hend]; rfl
      rw [pipefsCopyOutLocked, hsplit, hempty, List.append_nil, List.drop_of_length_le hlen]

end CopyOut

/-! ## Appending a page -/

section Append

variable {p : PipeInfo} {phys offset len : Nat} {pageRef : Bool}

/-- the descriptor `pipefs_append_page_locked` queues -/
def appendedBuf (phys offset len : Nat) (pageRef : Bool) : PipeBuffer :=
  ⟨phys, offset, len, pageRef, !pageRef && offset == 0 && decide (len < PAGE_SIZE)⟩

/-- what a successful append needs: a page, a window inside it, and room in the pipe and the ring -/
theorem pipefsAppendPageLocked_pos (hret : 0 < (pipefsAppendPageLocked p phys offset len pageRef).2) :
    phys ≠ 0 ∧ len ≠ 0 ∧ offset + len ≤ PAGE_SIZE ∧ p.ptr + len ≤ PIPE_BUFF ∧ p.nrBuffers < PIPE_MAX_BUFFERS := by
  unfold pipefsAppendPageLocked at hret
  by_cases hv : phys = 0 ∨ len = 0 ∨ PAGE_SIZE ≤ offset ∨ PAGE_SIZE - offset < len
  · rw [if_pos hv] at hret
    simp [EINVAL] at hret
  rw [if_neg hv] at hret
  by_cases hroom : PIPE_BUFF < p.ptr + len
  · rw [if_pos hroom] at hret
    simp at hret
  rw [if_neg hroom] at hret
  by_cases hnr : p.nrBuffers < PIPE_MAX_BUFFERS
  · omega
  · rw [pipefsPushBufferLocked_of_le (by omega)] at hret
    simp at hret

/-- the successful append, computed -/
theorem pipefsAppendPageLocked_eq (hphys : phys ≠ 0) (hlen : len ≠ 0) (hend : offset + len ≤ PAGE_SIZE)
    (hroom : p.ptr + len ≤ PIPE_BUFF) (hnr : p.nrBuffers < PIPE_MAX_BUFFERS) :
    pipefsAppendPageLocked p phys offset len pageRef = ({ p with
      nrBuffers := p.nrBuffers + 1
      buffers := Function.update p.buffers (pipefsBufferIndex p p.nrBuffers) (appendedBuf phys offset len pageRef)
      ptr := p.ptr + len }, (len : Int)) := by
  unfold pipefsAppendPageLocked
  rw [if_neg (by omega), if_neg (by omega), pipefsPushBufferLocked_of_lt hnr]
  simp only [u16_of_le (show offset ≤ PAGE_SIZE by omega), u16_of_le (show len ≤ PAGE_SIZE by omega),
    u32_of_le hroom, Function.update_idem]
  rfl

/-- a refused append leaves the pipe as it was -/
theorem pipefsAppendPageLocked_refused (hret : (pipefsAppendPageLocked p phys offset len pageRef).2 ≤ 0) :
    (pipefsAppendPageLocked p phys offset len pageRef).1 = p := by
  unfold pipefsAppendPageLocked at hret ⊢
  by_cases hv : phys = 0 ∨ len = 0 ∨ PAGE_SIZE ≤ offset ∨ PAGE_SIZE - offset < len
  · rw [if_pos hv]
  rw [if_neg hv] at hret ⊢
  by_cases hroom : PIPE_BUFF < p.ptr + len
  · rw [if_pos hroom]
  rw [if_neg hroom] at hret ⊢
  rcases hpush : pipefsPushBufferLocked p with _ | ⟨q, idx⟩
  · rfl
  · simp only [hpush] at hret
    omega

theorem BufOk.appendedBuf (hphys : phys ≠ 0) (hlen : len ≠ 0) (hend : offset + len ≤ PAGE_SIZE) :
    BufOk (appendedBuf phys offset len pageRef) := by
  refine ⟨Nat.pos_of_ne_zero hlen, hend, hphys, ?_⟩
  cases pageRef <;> simp [Naos.Pipe.appendedBuf]

/-- a successful append queues the window of the page at the back, with `can_merge` set for an owned page filled
from its start but not to its end -/
theorem pipefsAppendPageLocked_spec (h : RingOk p) (hret : 0 < (pipefsAppendPageLocked p phys offset len pageRef).2) :
    RingOk (pipefsAppendPageLocked p phys offset len pageRef).1 ∧
      bufs (pipefsAppendPageLocked p phys offset len pageRef).1 = bufs p ++ [appendedBuf phys offset len pageRef] ∧
      (pipefsAppendPageLocked p phys offset len pageRef).1.ptr = p.ptr + len ∧
      (pipefsAppendPageLocked p phys offset len pageRef).2 = len ∧
      (pipefsAppendPageLocked p phys offset len pageRef).1.cachedPages = p.cachedPages ∧
      (pipefsAppendPageLocked p phys offset len pageRef).1.readFds = p.readFds ∧
      (pipefsAppendPageLocked p phys offset len pageRef).1.writeFds = p.writeFds := by
  obtain ⟨hphys, hlen, hend, hroom, hnr⟩ := pipefsAppendPageLocked_pos hret
  have hbufs : bufs { p with
      nrBuffers := p.nrBuffers + 1
      buffers := Function.update p.buffers (pipefsBufferIndex p p.nrBuffers) (appendedBuf phys offset len pageRef)
      ptr := p.ptr + len } = bufs p ++ [appendedBuf phys offset len pageRef] := bufs_push_set hnr
  rw [pipefsAppendPageLocked_eq hphys hlen hend hroom hnr]
  refine ⟨⟨h.head_lt, hnr, ?_, hroom, ?_⟩, hbufs, rfl, rfl, rfl, rfl, rfl⟩
  · rw [hbufs, List.map_append, List.sum_append, ← h.ptr_eq]
    rfl
  · rw [hbufs]
    intro b hb
    rcases List.mem_append.1 hb with hb | hb
    · exact h.buf_ok b hb
    · rw [List.mem_singleton.1 hb]
      exact BufOk.appendedBuf hphys hlen hend

end Append

/-! ## Rewriting the back descriptor -/

section Back

variable {p : PipeInfo}

/-- the descriptor in the back slot -/
def backBuf (p : PipeInfo) : PipeBuffer := p.buffers (pipefsBufferIndex p (p.nrBuffers - 1))

/-- the back descriptor replaced by a well-formed one, with `ptr` moved by the difference in length -/
theorem RingOk.set_back (h : RingOk p) (h0 : p.nrBuffers ≠ 0) (v : PipeBuffer) (ptr' : Nat) (hv : BufOk v)
    (hptr : ptr' + (backBuf p).len = p.ptr + v.len) (hle : ptr' ≤ PIPE_BUFF) :
    RingOk { p with buffers := Function.update p.buffers (pipefsBufferIndex p (p.nrBuffers - 1)) v, ptr := ptr' } ∧
      bufs { p with buffers := Function.update p.buffers (pipefsBufferIndex p (p.nrBuffers - 1)) v, ptr := ptr' } =
        (bufs p).dropLast ++ [v] := by
  have hbufs : bufs { p with
      buffers := Function.update p.buffers (pipefsBufferIndex p (p.nrBuffers - 1)) v
      ptr := ptr' } = (bufs p).dropLast ++ [v] := bufs_set_back h.nr_le h0
  have hconcat : bufs p = (bufs p).dropLast ++ [backBuf p] := bufs_eq_concat h0
  have hsum : p.ptr = (((bufs p).dropLast).map PipeBuffer.len).sum + (backBuf p).len := by
    rw [h.ptr_eq]; nth_rewrite 1 [hconcat]; simp
  refine ⟨⟨h.head_lt, h.nr_le, ?_, hle, ?_⟩, hbufs⟩
  · rw [hbufs, List.map_append, List.sum_append]
    simp only [List.map_cons, List.map_nil, List.sum_cons, List.sum_nil, Nat.add_zero]
    omega
  · rw [hbufs]
    intro b hb
    rcases List.mem_append.1 hb with hb | hb
    · exact h.buf_ok b (List.dropLast_subset _ hb)
    · rw [List.mem_singleton.1 hb]; exact hv

/-- the queue ends with the bytes of the back descriptor -/
theorem content_eq_dropLast (mem : Mem) (h0 : p.nrBuffers ≠ 0) :
    content mem p = ((bufs p).dropLast).flatMap (bufBytes mem) ++ bufBytes mem (backBuf p) := by
  rw [content_eq_flatMap]
  nth_rewrite 1 [bufs_eq_concat h0]
  rw [List.flatMap_append, List.flatMap_singleton]
  rfl

theorem RingOk.backBuf_ok (h : RingOk p) (h0 : p.nrBuffers ≠ 0) : BufOk (backBuf p) :=
  h.buf_ok _ (by rw [bufs_eq_concat h0]; exact List.mem_append_right _ (List.mem_singleton_self _))

end Back

end Naos.Pipe
