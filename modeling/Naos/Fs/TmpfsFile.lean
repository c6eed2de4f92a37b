/-
The contents of tmpfs files, `fs/tmp.c` over `fs/vfs/paged_store.h`, and the memory counter they are charged to.

Each inode keeps its bytes in a paged store, and the global counter `tmpfs_mem_used` is charged the size of every
file rounded up to whole pages: `tmpfs_resize_inode` reserves the difference before it changes a size and gives it
back when the slot array cannot grow, and `tmpfs_evict_inode` releases the size of an inode that goes. A write first
resizes the file to the end of the write, then copies the data page by page.

The abstract side is a sparse file per inode (`Sparse.File`): a call changes it by what it is for when it returns no
error, and leaves it when it fails.

Results:
- `fileStep_memOk`, `fileRun_memOk`: every call keeps `tmpfs_mem_used` equal to the sum of the aligned sizes of the
  live inodes, whatever the allocations do;
- `tmpfsResizeInode_failed`: a resize that fails leaves the files and the counter as they were;
- `fileStep_refines`, `fileRun_refines`, `fileRun_read`: when the page allocations of the writes succeed, the stores
  hold the abstract files after every call, and every read of a regular file returns the bytes of its abstract file;
- `tmpfs_contents_refinement`: the three together, as `ContentsContract`;
- `write_failed_frame`: a write whose second page cannot be allocated returns `-ENOMEM`, yet has grown the file and
  written its first page.
-/
import Mathlib
import Naos.Lib.SparseFile
import Naos.Fs.Tmpfs
import Naos.Fs.PagedStore

namespace Naos.Tmpfs

open Naos.PagedStore

def EFBIG : Int := 27
def MAX_TMPFS_FILE_SIZE : Nat := 64 * 1024 * 1024
def UINT64_MAX : Nat := 2 ^ 64 - 1

/-! ## The memory counter -/

/-- `tmpfs_mem_align`: a size in whole pages -/
def tmpfsMemAlign (size : Nat) : Nat := if size = 0 then 0 else PADDING_UP size PAGE_SIZE

/-- `tmpfs_mem_limit`: half the memory, in whole pages -/
def tmpfsMemLimit (memorySize : Nat) : Nat := PADDING_DOWN (memorySize / 2) PAGE_SIZE

/-- `tmpfs_mem_resize_reserve`: the counter afterwards, and the return value -/
def tmpfsMemResizeReserve (used limit oldSize newSize : Nat) : Nat × Int :=
  let oldAligned := tmpfsMemAlign oldSize
  let newAligned := tmpfsMemAlign newSize
  if newAligned > oldAligned then
    let delta := newAligned - oldAligned
    if delta > limit ∨ used > limit - delta then (used, -ENOMEM) else (used + delta, 0)
  else
    let delta := oldAligned - newAligned
    (if delta ≥ used then 0 else used - delta, 0)

/-- `tmpfs_mem_release`: the counter afterwards -/
def tmpfsMemRelease (used size : Nat) : Nat :=
  if size = 0 then used
  else
    let aligned := tmpfsMemAlign size
    if aligned ≥ used then 0 else used - aligned

/-! ## Files -/

/-- what tmpfs keeps of an inode for its contents: the mode and the store -/
structure FileInode where
  mode : Nat
  store : PagedFileStore

/-- the inodes' contents, the live inodes, and `tmpfs_mem_used` -/
structure Files where
  inodes : Nat → FileInode
  live : Finset Nat
  memUsed : Nat

/-- inode `i` with the store `st` -/
def Files.setStore (fs : Files) (i : Nat) (st : PagedFileStore) : Files :=
  { fs with inodes := Function.update fs.inodes i { fs.inodes i with store := st } }

/-- the release loop of `tmpfs_resize_inode`: the slots from `newPages` up to `oldPages` emptied, each while the
slot array reaches it -/
def tmpfsReleasePages (pages : List (Option (Nat → UInt8))) (newPages oldPages : Nat) :
    List (Option (Nat → UInt8)) :=
  (List.range' newPages (oldPages - newPages)).foldl (fun ps i => if i < ps.length then ps.set i none else ps) pages

/-- `tmpfs_resize_inode`: the reservation first, then the slot array grown or the tail zeroed, the size set, and
the dropped pages released -/
def tmpfsResizeInode (fs : Files) (limit i newSize : Nat) (slotsOk : Bool) : Files × Int :=
  let node := fs.inodes i
  if sIsDir node.mode then (fs, -EINVAL)
  else if newSize > MAX_TMPFS_FILE_SIZE then (fs, -EFBIG)
  else
    let oldSize := node.store.size
    if oldSize = newSize then (fs, 0)
    else
      let oldPages := pagedFileStorePagesForSize oldSize
      let newPages := pagedFileStorePagesForSize newSize
      let r := tmpfsMemResizeReserve fs.memUsed limit oldSize newSize
      if r.2 < 0 then (fs, r.2)
      else if newSize > oldSize then
        let e := pagedFileStoreEnsureSlots node.store newPages slotsOk
        -- the reservation is given back when the slot array cannot grow
        if e.2 < 0 then ({ fs with memUsed := (tmpfsMemResizeReserve r.1 limit newSize oldSize).1 }, e.2)
        else ({ fs.setStore i { e.1 with size := newSize } with memUsed := r.1 }, 0)
      else
        let st := { pagedFileStoreZeroTail node.store newSize with size := newSize }
        ({ fs.setStore i { st with pages := tmpfsReleasePages st.pages newPages oldPages } with memUsed := r.1 }, 0)

/-- `tmpfs_read` of a regular file: the return value and the bytes -/
def tmpfsRead (fs : Files) (i count pos : Nat) : Int × List UInt8 :=
  let r := pagedFileStoreReadLocked (fs.inodes i).store count pos
  (r.1, r.2.1)

/-- `tmpfs_write` of a regular file at a position: the file resized to the end of the write, then written -/
def tmpfsWrite (fs : Files) (limit i pos : Nat) (buf : List UInt8) (env : StoreEnv) : Files × Int :=
  if pos > UINT64_MAX - buf.length then (fs, -EFBIG)
  else
    let endPos := pos + buf.length
    let r := tmpfsResizeInode fs limit i (max (fs.inodes i).store.size endPos) env.slotsOk
    if r.2 < 0 then r
    else
      let w := pagedFileStoreWriteLocked (r.1.inodes i).store buf pos env
      let st := if w.2.1 > 0 ∧ endPos > w.1.size then { w.1 with size := endPos } else w.1
      (r.1.setStore i st, w.2.1)

/-- the size change of `tmpfs_setattr`: a resize of a file whose size differs -/
def tmpfsSetattr (fs : Files) (limit i size : Nat) (slotsOk : Bool) : Files × Int :=
  if !sIsDir (fs.inodes i).mode ∧ size ≠ (fs.inodes i).store.size then tmpfsResizeInode fs limit i size slotsOk
  else (fs, 0)

/-- `tmpfs_evict_inode`: the size released from the counter and the store destroyed -/
def tmpfsEvictInode (fs : Files) (i : Nat) : Files :=
  { fs.setStore i ⟨[], 0⟩ with memUsed := tmpfsMemRelease fs.memUsed (fs.inodes i).store.size,
                               live := fs.live.erase i }

/-! ## Calls -/

/-- one call on the contents of tmpfs inodes; `create` is `tmpfs_new_inode` handing out inode `i` -/
inductive FileOp
  | create (i mode : Nat)
  | read (i count pos : Nat)
  | write (i pos : Nat) (buf : List UInt8) (env : StoreEnv)
  | setattr (i size : Nat) (slotsOk : Bool)
  | evict (i : Nat)

/-- a call: the files afterwards, the return value, and the bytes a read returns -/
def fileStep (limit : Nat) (fs : Files) : FileOp → Files × Int × List UInt8
  | .create i mode =>
    ({ fs with inodes := Function.update fs.inodes i ⟨mode, ⟨[], 0⟩⟩, live := insert i fs.live }, 0, [])
  | .read i count pos => (fs, (tmpfsRead fs i count pos).1, (tmpfsRead fs i count pos).2)
  | .write i pos buf env => ((tmpfsWrite fs limit i pos buf env).1, (tmpfsWrite fs limit i pos buf env).2, [])
  | .setattr i size ok => ((tmpfsSetattr fs limit i size ok).1, (tmpfsSetattr fs limit i size ok).2, [])
  | .evict i => (tmpfsEvictInode fs i, 0, [])

/-- the files after a sequence of calls, and what each call returned -/
def fileRun (limit : Nat) (fs : Files) : List FileOp → Files × List (Int × List UInt8)
  | [] => (fs, [])
  | op :: ops =>
    let r := fileStep limit fs op
    let rest := fileRun limit r.1 ops
    (rest.1, (r.2.1, r.2.2) :: rest.2)

/-! ## Alignment and the counter -/

section Counter

variable {used limit oldSize newSize size : Nat}

/-- below the wrap of the 64-bit sum, a size in whole pages is its page count times the page size -/
theorem tmpfsMemAlign_eq (h : size ≤ MAX_TMPFS_FILE_SIZE) :
    tmpfsMemAlign size = (size + PAGE_SIZE - 1) / PAGE_SIZE * PAGE_SIZE := by
  unfold tmpfsMemAlign PADDING_UP PADDING_DOWN
  split
  · subst size; rfl
  · rw [Nat.mod_eq_of_lt (by unfold MAX_TMPFS_FILE_SIZE at h; unfold PAGE_SIZE; omega)]

theorem pagedFileStorePagesForSize_eq (h : size ≤ MAX_TMPFS_FILE_SIZE) :
    pagedFileStorePagesForSize size = (size + PAGE_SIZE - 1) / PAGE_SIZE := by
  unfold pagedFileStorePagesForSize PADDING_UP PADDING_DOWN
  split
  · rw [Nat.mod_eq_of_lt (by unfold MAX_TMPFS_FILE_SIZE at h; unfold PAGE_SIZE; omega),
      Nat.mul_div_cancel _ (by decide)]
  · rename_i h0
    simp only [ne_eq, not_not] at h0
    subst size; rfl

theorem tmpfsMemAlign_mono (hle : oldSize ≤ newSize) (h : newSize ≤ MAX_TMPFS_FILE_SIZE) :
    tmpfsMemAlign oldSize ≤ tmpfsMemAlign newSize := by
  rw [tmpfsMemAlign_eq (hle.trans h), tmpfsMemAlign_eq h]
  exact Nat.mul_le_mul_right _ (Nat.div_le_div_right (by omega))

/-- a reservation that succeeds moves the counter by the change of the aligned size, and one that fails keeps it -/
theorem tmpfsMemResizeReserve_spec (used limit oldSize newSize : Nat) (h : tmpfsMemAlign oldSize ≤ used) :
    ((tmpfsMemResizeReserve used limit oldSize newSize).2 = 0 ∧
      (tmpfsMemResizeReserve used limit oldSize newSize).1 + tmpfsMemAlign oldSize = used + tmpfsMemAlign newSize) ∨
    tmpfsMemResizeReserve used limit oldSize newSize = (used, -ENOMEM) := by
  unfold tmpfsMemResizeReserve
  dsimp only
  split
  · split
    · exact .inr rfl
    · exact .inl ⟨rfl, by omega⟩
  · refine .inl ⟨rfl, ?_⟩
    split <;> omega

/-- a reservation returns 0 or `-ENOMEM` -/
theorem tmpfsMemResizeReserve_ret (used limit oldSize newSize : Nat) :
    (tmpfsMemResizeReserve used limit oldSize newSize).2 = 0 ∨
      (tmpfsMemResizeReserve used limit oldSize newSize).2 = -ENOMEM := by
  unfold tmpfsMemResizeReserve
  dsimp only
  split_ifs <;> simp

/-- the reservation of a growth, given back, leaves the counter as it was -/
theorem tmpfsMemResizeReserve_back (hle : tmpfsMemAlign oldSize ≤ tmpfsMemAlign newSize)
    (h : (tmpfsMemResizeReserve used limit oldSize newSize).2 = 0) :
    (tmpfsMemResizeReserve (tmpfsMemResizeReserve used limit oldSize newSize).1 limit newSize oldSize).1 = used := by
  have hgrow : (tmpfsMemResizeReserve used limit oldSize newSize).1 =
      used + (tmpfsMemAlign newSize - tmpfsMemAlign oldSize) := by
    unfold tmpfsMemResizeReserve at h ⊢
    dsimp only at h ⊢
    split_ifs at h ⊢ with h1 h2
    · simp [ENOMEM] at h
    · rfl
    · omega
    · omega
  rw [hgrow]
  unfold tmpfsMemResizeReserve
  dsimp only
  split_ifs <;> omega

theorem tmpfsMemRelease_spec (h : tmpfsMemAlign size ≤ used) : tmpfsMemRelease used size + tmpfsMemAlign size = used := by
  unfold tmpfsMemRelease
  split
  · subst size; simp [tmpfsMemAlign]
  · dsimp only
    split <;> omega

end Counter

/-! ## Resizing a store -/

section Store

variable {fs : Files} {i j : Nat} {st : PagedFileStore}

@[simp] theorem setStore_live : (fs.setStore i st).live = fs.live := rfl
@[simp] theorem setStore_memUsed : (fs.setStore i st).memUsed = fs.memUsed := rfl
@[simp] theorem setStore_store_self : ((fs.setStore i st).inodes i).store = st := by simp [Files.setStore]
@[simp] theorem setStore_mode : ((fs.setStore i st).inodes j).mode = (fs.inodes j).mode := by
  by_cases h : j = i
  · subst h; simp [Files.setStore]
  · simp [Files.setStore, h]
theorem setStore_inodes_ne (h : j ≠ i) : (fs.setStore i st).inodes j = fs.inodes j := by
  simp [Files.setStore, h]

@[simp] theorem tmpfsReleasePages_length (pages : List (Option (Nat → UInt8))) (a b : Nat) :
    (tmpfsReleasePages pages a b).length = pages.length := by
  unfold tmpfsReleasePages
  generalize List.range' a (b - a) = ks
  induction ks generalizing pages with
  | nil => rfl
  | cons k ks ih =>
    rw [List.foldl_cons, ih]
    split <;> simp

/-- one slot of the release loop emptied, or left when the array does not reach it: its page reads as zeros -/
theorem byteAt_releaseOne (pages : List (Option (Nat → UInt8))) (k x : Nat) :
    (⟨if k < pages.length then pages.set k none else pages, st.size⟩ : PagedFileStore).byteAt x =
      if x / PAGE_SIZE = k then 0 else (⟨pages, st.size⟩ : PagedFileStore).byteAt x := by
  split
  · exact byteAt_set_none (s := ⟨pages, st.size⟩) x
  · rename_i hk
    split
    · rename_i hx
      unfold PagedFileStore.byteAt
      rw [hx, List.getElem?_eq_none_iff.2 (Nat.le_of_not_lt hk)]
    · rfl

/-- the release loop empties the slots of the pages it passes -/
theorem byteAt_releasePages (st : PagedFileStore) (a b x : Nat) :
    ({ st with pages := tmpfsReleasePages st.pages a b } : PagedFileStore).byteAt x =
      if a ≤ x / PAGE_SIZE ∧ x / PAGE_SIZE < b then 0 else st.byteAt x := by
  have hfold : ∀ (ks : List Nat) (pages : List (Option (Nat → UInt8))),
      (⟨ks.foldl (fun ps k => if k < ps.length then ps.set k none else ps) pages, st.size⟩ :
        PagedFileStore).byteAt x = if x / PAGE_SIZE ∈ ks then 0 else (⟨pages, st.size⟩ : PagedFileStore).byteAt x := by
    intro ks
    induction ks with
    | nil => intro pages; simp
    | cons k ks ih =>
      intro pages
      rw [List.foldl_cons, ih, byteAt_releaseOne]
      by_cases hk : x / PAGE_SIZE = k <;> simp [hk]
  rw [tmpfsReleasePages, hfold]
  simp only [List.mem_range'_1]
  by_cases h : a ≤ x / PAGE_SIZE ∧ x / PAGE_SIZE < b
  · rw [if_pos (by omega), if_pos h]
  · rw [if_neg (by omega), if_neg h]

/-- a shrink of a store whose bytes from its size on are zero: it reads as before below the new size, and as zeros
from it on -/
theorem byteAt_shrink {old : PagedFileStore} {newSize : Nat} (hlt : newSize < old.size)
    (hmax : old.size ≤ MAX_TMPFS_FILE_SIZE) (hz : ∀ x, old.size ≤ x → old.byteAt x = 0) (x : Nat) :
    ({ pagedFileStoreZeroTail old newSize with
        size := newSize,
        pages := tmpfsReleasePages (pagedFileStoreZeroTail old newSize).pages (pagedFileStorePagesForSize newSize)
          (pagedFileStorePagesForSize old.size) } : PagedFileStore).byteAt x =
      if x < newSize then old.byteAt x else 0 := by
  have hrel := byteAt_releasePages { pagedFileStoreZeroTail old newSize with size := newSize }
    (pagedFileStorePagesForSize newSize) (pagedFileStorePagesForSize old.size) x
  simp only [byteAt_setSize] at hrel
  rw [hrel, pagedFileStoreZeroTail_byteAt, pagedFileStorePagesForSize_eq (by omega),
    pagedFileStorePagesForSize_eq hmax]
  unfold PAGE_SIZE MAX_TMPFS_FILE_SIZE at *
  by_cases hx : x < newSize
  · rw [if_neg (by omega), if_neg (by omega), if_pos hx]
  · rw [if_neg hx]
    by_cases hrel : (newSize + 4096 - 1) / 4096 ≤ x / 4096 ∧ x / 4096 < (old.size + 4096 - 1) / 4096
    · rw [if_pos hrel]
    · rw [if_neg hrel]
      by_cases hpast : (old.size + 4096 - 1) / 4096 ≤ x / 4096
      · split
        · rfl
        · exact hz x (by omega)
      · rw [if_pos (by omega)]

end Store

/-! ## Resizing a file -/

section Resize

variable {fs : Files} {limit i newSize : Nat} {slotsOk : Bool}

theorem pagedFileStorePagesForSize_mono {a b : Nat} (hle : a ≤ b) (h : b ≤ MAX_TMPFS_FILE_SIZE) :
    pagedFileStorePagesForSize a ≤ pagedFileStorePagesForSize b := by
  rw [pagedFileStorePagesForSize_eq (hle.trans h), pagedFileStorePagesForSize_eq h]
  exact Nat.div_le_div_right (by omega)

/-- what a resize can do: fail, or find the size it asks for, and leave the files as they were; or reserve the
difference and give the file a store of the new size, which reads as before below it and as zeros from it on, with
slots for all its pages -/
theorem tmpfsResizeInode_cases (fs : Files) (limit i newSize : Nat) (slotsOk : Bool) :
    ((tmpfsResizeInode fs limit i newSize slotsOk).1 = fs ∧
      ((tmpfsResizeInode fs limit i newSize slotsOk).2 < 0 ∨
        (tmpfsResizeInode fs limit i newSize slotsOk).2 = 0 ∧ (fs.inodes i).store.size = newSize)) ∨
    (sIsDir (fs.inodes i).mode = false ∧ newSize ≤ MAX_TMPFS_FILE_SIZE ∧
      (tmpfsMemResizeReserve fs.memUsed limit (fs.inodes i).store.size newSize).2 = 0 ∧
      ∃ st, tmpfsResizeInode fs limit i newSize slotsOk =
          ({ fs.setStore i st with
              memUsed := (tmpfsMemResizeReserve fs.memUsed limit (fs.inodes i).store.size newSize).1 }, 0) ∧
        st.size = newSize ∧
        ((fs.inodes i).store.size ≤ MAX_TMPFS_FILE_SIZE →
          (∀ x, (fs.inodes i).store.size ≤ x → (fs.inodes i).store.byteAt x = 0) →
          ∀ x, st.byteAt x = if x < newSize then (fs.inodes i).store.byteAt x else 0) ∧
        ((fs.inodes i).store.size ≤ MAX_TMPFS_FILE_SIZE →
          pagedFileStorePagesForSize (fs.inodes i).store.size ≤ (fs.inodes i).store.pages.length →
          pagedFileStorePagesForSize newSize ≤ st.pages.length)) := by
  unfold tmpfsResizeInode
  dsimp only
  split
  · exact .inl ⟨rfl, .inl (by simp [EINVAL])⟩
  rename_i hdir
  split
  · exact .inl ⟨rfl, .inl (by simp [EFBIG])⟩
  rename_i hmax
  split
  · rename_i hsame
    exact .inl ⟨rfl, .inr ⟨rfl, hsame⟩⟩
  rename_i hsame
  split
  · rename_i hres
    exact .inl ⟨rfl, .inl hres⟩
  rename_i hres
  have hres0 : (tmpfsMemResizeReserve fs.memUsed limit (fs.inodes i).store.size newSize).2 = 0 := by
    rcases tmpfsMemResizeReserve_ret fs.memUsed limit (fs.inodes i).store.size newSize with h | h
    · exact h
    · rw [h] at hres
      exact absurd (by decide) hres
  split
  · rename_i hgrow
    split
    · rename_i hslots
      left
      have hback := tmpfsMemResizeReserve_back
        (tmpfsMemAlign_mono (Nat.le_of_lt hgrow) (Nat.le_of_not_lt hmax)) hres0
      rw [hback]
      exact ⟨rfl, .inl hslots⟩
    · rename_i hslots
      refine .inr ⟨by simpa using hdir, by omega, hres0, _, rfl, rfl, fun _ hz x => ?_, fun _ _ => ?_⟩
      · simp only [byteAt_setSize, pagedFileStoreEnsureSlots_byteAt]
        split
        · rfl
        · exact hz x (by omega)
      · rcases pagedFileStoreEnsureSlots_ret (fs.inodes i).store (pagedFileStorePagesForSize newSize) slotsOk with
          ⟨-, hl⟩ | ⟨h, -⟩
        · exact hl
        · rw [h] at hslots
          exact absurd (by simp [PagedStore.ENOMEM]) hslots
  · rename_i hshrink
    refine .inr ⟨by simpa using hdir, by omega, hres0, _, rfl, rfl, fun hsize hz x => ?_, fun hsize hcover => ?_⟩
    · exact byteAt_shrink (by omega) hsize hz x
    · simp only [tmpfsReleasePages_length, pagedFileStoreZeroTail_length]
      exact (pagedFileStorePagesForSize_mono (by omega) hsize).trans hcover

/-- a resize that fails leaves the files and the counter as they were -/
theorem tmpfsResizeInode_failed (h : (tmpfsResizeInode fs limit i newSize slotsOk).2 < 0) :
    (tmpfsResizeInode fs limit i newSize slotsOk).1 = fs := by
  rcases tmpfsResizeInode_cases fs limit i newSize slotsOk with ⟨h1, -⟩ | ⟨-, -, -, st, heq, -⟩
  · exact h1
  · rw [heq] at h
    exact absurd h (lt_irrefl 0)

end Resize

/-! ## The counter over whole runs -/

/-- the aligned sizes of the live inodes, what `tmpfs_mem_used` is to hold -/
def Files.charged (fs : Files) : Nat := ∑ j ∈ fs.live, tmpfsMemAlign (fs.inodes j).store.size

/-- `tmpfs_mem_used` is the sum of the aligned sizes of the live inodes -/
def MemOk (fs : Files) : Prop := fs.memUsed = fs.charged

/-- a call on a live inode, or the creation of one that is not -/
def LegalFileOp (fs : Files) : FileOp → Prop
  | .create i _ => i ∉ fs.live
  | .read i _ _ => i ∈ fs.live
  | .write i _ _ _ => i ∈ fs.live
  | .setattr i _ _ => i ∈ fs.live
  | .evict i => i ∈ fs.live

/-- every call of a sequence legal in the state it meets -/
def LegalFileRun (limit : Nat) : Files → List FileOp → Prop
  | _, [] => True
  | fs, op :: ops => LegalFileOp fs op ∧ LegalFileRun limit (fileStep limit fs op).1 ops

section Charged

variable {fs : Files} {i : Nat} {st : PagedFileStore}

@[simp] theorem charged_withMemUsed (u : Nat) : ({ fs with memUsed := u } : Files).charged = fs.charged := rfl

theorem align_le_charged (hi : i ∈ fs.live) : tmpfsMemAlign (fs.inodes i).store.size ≤ fs.charged :=
  Finset.single_le_sum (f := fun j => tmpfsMemAlign (fs.inodes j).store.size) (fun _ _ => Nat.zero_le _) hi

/-- a new store for a live inode changes the charge by the change of its aligned size -/
theorem charged_setStore (st : PagedFileStore) (hi : i ∈ fs.live) :
    (fs.setStore i st).charged + tmpfsMemAlign (fs.inodes i).store.size = fs.charged + tmpfsMemAlign st.size := by
  unfold Files.charged
  rw [setStore_live, ← Finset.add_sum_erase _ _ hi, ← Finset.add_sum_erase _ _ hi, setStore_store_self]
  have hrest : ∑ j ∈ fs.live.erase i, tmpfsMemAlign ((fs.setStore i st).inodes j).store.size =
      ∑ j ∈ fs.live.erase i, tmpfsMemAlign (fs.inodes j).store.size :=
    Finset.sum_congr rfl fun j hj => by rw [setStore_inodes_ne (Finset.ne_of_mem_erase hj)]
  rw [hrest]
  omega

/-- a store of the same size keeps the charge -/
theorem charged_setStore_of_size (hi : i ∈ fs.live) (h : st.size = (fs.inodes i).store.size) :
    (fs.setStore i st).charged = fs.charged := by
  have := charged_setStore st hi
  rw [h] at this
  omega

end Charged

section MemOk

variable {fs : Files} {limit i : Nat}

@[simp] theorem tmpfsResizeInode_live (newSize : Nat) (slotsOk : Bool) :
    (tmpfsResizeInode fs limit i newSize slotsOk).1.live = fs.live := by
  rcases tmpfsResizeInode_cases fs limit i newSize slotsOk with ⟨heq, -⟩ | ⟨-, -, -, st, heq, -⟩ <;> rw [heq]; rfl

theorem tmpfsResizeInode_memOk (hm : MemOk fs) (hi : i ∈ fs.live) (newSize : Nat) (slotsOk : Bool) :
    MemOk (tmpfsResizeInode fs limit i newSize slotsOk).1 := by
  rcases tmpfsResizeInode_cases fs limit i newSize slotsOk with ⟨heq, -⟩ | ⟨-, -, hres, st, heq, hsize, -, -⟩
  · rw [heq]; exact hm
  · rw [heq]
    unfold MemOk at hm ⊢
    dsimp only
    have hcharge := charged_setStore st hi
    rw [hsize] at hcharge
    rcases tmpfsMemResizeReserve_spec fs.memUsed limit _ newSize (hm ▸ align_le_charged hi) with
      ⟨-, hmove⟩ | hfail
    · rw [charged_withMemUsed]
      omega
    · rw [hfail] at hres
      exact absurd hres (by simp [ENOMEM])

/-- a resize that returns no error has given the file the size asked for -/
theorem tmpfsResizeInode_ok {newSize : Nat} {slotsOk : Bool} (h : 0 ≤ (tmpfsResizeInode fs limit i newSize slotsOk).2) :
    (tmpfsResizeInode fs limit i newSize slotsOk).2 = 0 ∧
      ((tmpfsResizeInode fs limit i newSize slotsOk).1.inodes i).store.size = newSize := by
  rcases tmpfsResizeInode_cases fs limit i newSize slotsOk with ⟨heq, hneg | ⟨h0, hsize⟩⟩ | ⟨-, -, -, st, heq, hsize, -⟩
  · exact absurd h (not_le.2 hneg)
  · rw [heq]
    exact ⟨h0, hsize⟩
  · rw [heq]
    simp [hsize]

/-- what a write can do: fail and leave the files as they were, or resize the file to the end of the write and then
write its store -/
theorem tmpfsWrite_cases (fs : Files) (limit i pos : Nat) (buf : List UInt8) (env : StoreEnv) :
    ((tmpfsWrite fs limit i pos buf env).1 = fs ∧ (tmpfsWrite fs limit i pos buf env).2 < 0) ∨
    ((tmpfsResizeInode fs limit i (max (fs.inodes i).store.size (pos + buf.length)) env.slotsOk).2 = 0 ∧
      ((tmpfsResizeInode fs limit i (max (fs.inodes i).store.size (pos + buf.length)) env.slotsOk).1.inodes i).store.size
        = max (fs.inodes i).store.size (pos + buf.length) ∧
      tmpfsWrite fs limit i pos buf env =
        let r := (tmpfsResizeInode fs limit i (max (fs.inodes i).store.size (pos + buf.length)) env.slotsOk).1
        (r.setStore i (pagedFileStoreWriteLocked (r.inodes i).store buf pos env).1,
          (pagedFileStoreWriteLocked (r.inodes i).store buf pos env).2.1)) := by
  unfold tmpfsWrite
  split
  · exact .inl ⟨rfl, by simp [EFBIG]⟩
  dsimp only
  split
  · rename_i hneg
    exact .inl ⟨tmpfsResizeInode_failed hneg, hneg⟩
  rename_i hres
  obtain ⟨h0, hsize⟩ := tmpfsResizeInode_ok (not_lt.1 hres)
  refine .inr ⟨h0, hsize, ?_⟩
  rw [if_neg (by simp only [pagedFileStoreWriteLocked_size, hsize]; omega)]

theorem tmpfsWrite_memOk (hm : MemOk fs) (hi : i ∈ fs.live) (pos : Nat) (buf : List UInt8) (env : StoreEnv) :
    MemOk (tmpfsWrite fs limit i pos buf env).1 := by
  rcases tmpfsWrite_cases fs limit i pos buf env with ⟨heq, -⟩ | ⟨-, -, heq⟩
  · rw [heq]; exact hm
  · rw [heq]
    dsimp only
    have hr : MemOk (tmpfsResizeInode fs limit i (max (fs.inodes i).store.size (pos + buf.length)) env.slotsOk).1 :=
      tmpfsResizeInode_memOk hm hi _ env.slotsOk
    unfold MemOk at hr ⊢
    rw [setStore_memUsed, charged_setStore_of_size (by simpa using hi) (by simp), hr]

theorem tmpfsSetattr_memOk (hm : MemOk fs) (hi : i ∈ fs.live) (size : Nat) (slotsOk : Bool) :
    MemOk (tmpfsSetattr fs limit i size slotsOk).1 := by
  unfold tmpfsSetattr
  split
  · exact tmpfsResizeInode_memOk hm hi size slotsOk
  · exact hm

theorem tmpfsEvictInode_memOk (hm : MemOk fs) (hi : i ∈ fs.live) : MemOk (tmpfsEvictInode fs i) := by
  unfold MemOk at hm ⊢
  have hrel := tmpfsMemRelease_spec (hm ▸ align_le_charged hi)
  have hsum := Finset.sum_erase_add fs.live (fun j => tmpfsMemAlign (fs.inodes j).store.size) hi
  have hrest : ∑ j ∈ fs.live.erase i, tmpfsMemAlign ((fs.setStore i ⟨[], 0⟩).inodes j).store.size =
      ∑ j ∈ fs.live.erase i, tmpfsMemAlign (fs.inodes j).store.size :=
    Finset.sum_congr rfl fun j hj => by rw [setStore_inodes_ne (Finset.ne_of_mem_erase hj)]
  simp only [tmpfsEvictInode, Files.charged] at hrest ⊢
  unfold Files.charged at hm
  omega

theorem create_memOk (hm : MemOk fs) {mode : Nat} (hi : i ∉ fs.live) :
    MemOk { fs with inodes := Function.update fs.inodes i ⟨mode, ⟨[], 0⟩⟩, live := insert i fs.live } := by
  unfold MemOk Files.charged at hm ⊢
  rw [Finset.sum_insert hi, hm]
  simp only [Function.update_self]
  have hrest : ∑ j ∈ fs.live, tmpfsMemAlign ((Function.update fs.inodes i ⟨mode, ⟨[], 0⟩⟩) j).store.size =
      ∑ j ∈ fs.live, tmpfsMemAlign (fs.inodes j).store.size :=
    Finset.sum_congr rfl fun j hj => by rw [Function.update_of_ne (ne_of_mem_of_not_mem hj hi)]
  rw [hrest]
  simp [tmpfsMemAlign]

/-- every legal call keeps the counter equal to the charge, whatever the allocations do -/
theorem fileStep_memOk (hm : MemOk fs) {op : FileOp} (hl : LegalFileOp fs op) : MemOk (fileStep limit fs op).1 := by
  cases op with
  | create i mode => exact create_memOk hm hl
  | read i count pos => exact hm
  | write i pos buf env => exact tmpfsWrite_memOk hm hl pos buf env
  | setattr i size ok => exact tmpfsSetattr_memOk hm hl size ok
  | evict i => exact tmpfsEvictInode_memOk hm hl

theorem fileRun_memOk {ops : List FileOp} (hm : MemOk fs) (hl : LegalFileRun limit fs ops) :
    MemOk (fileRun limit fs ops).1 := by
  induction ops generalizing fs with
  | nil => exact hm
  | cons op ops ih => exact ih (fileStep_memOk hm hl.1) hl.2

end MemOk

/-! ## The abstract files -/

/-- a store that holds a sparse file: the same size, within the size tmpfs allows, slots for all its pages, and the
same byte at every offset -/
structure StoreRefines (st : PagedFileStore) (f : Sparse.File UInt8) : Prop where
  size_eq : st.size = f.size
  size_le : st.size ≤ MAX_TMPFS_FILE_SIZE
  slots : pagedFileStorePagesForSize st.size ≤ st.pages.length
  byteAt_eq : ∀ x, st.byteAt x = f.data x

/-- every live regular file holds its abstract file -/
def Refines (fs : Files) (a : Nat → Sparse.File UInt8) : Prop :=
  ∀ j ∈ fs.live, sIsDir (fs.inodes j).mode = false → StoreRefines (fs.inodes j).store (a j)

/-- what a call does to the abstract files, given what it returned: a call that fails changes nothing -/
def FileOp.absStep (a : Nat → Sparse.File UInt8) : FileOp → Int → Nat → Sparse.File UInt8
  | .create i _, _ => Function.update a i Sparse.File.empty
  | .read _ _ _, _ => a
  | .write i pos buf _, r => if r < 0 then a else Function.update a i ((a i).write pos buf)
  | .setattr i size _, r => if r < 0 then a else Function.update a i ((a i).resize size)
  | .evict _, _ => a

/-- the abstract files after a sequence of calls, each applied with what it returned -/
def absRun (a : Nat → Sparse.File UInt8) : List FileOp → List (Int × List UInt8) → Nat → Sparse.File UInt8
  | op :: ops, r :: rs => absRun (op.absStep a r.1) ops rs
  | _, _ => a

/-- the page allocations of a write succeed; the slot array may still fail to grow -/
def FileOp.FramesOk : FileOp → Prop
  | .write _ _ _ env => ∀ k, env.frameOk k = true
  | _ => True

section Refine

variable {fs : Files} {a : Nat → Sparse.File UInt8} {limit i : Nat}

/-- a store holds the file of size 0 -/
theorem storeRefines_empty : StoreRefines ⟨[], 0⟩ (Sparse.File.empty : Sparse.File UInt8) :=
  ⟨rfl, Nat.zero_le _, by simp [pagedFileStorePagesForSize], fun x => by simp [PagedFileStore.byteAt]⟩

/-- a store that holds a file reads as zeros from its size on -/
theorem StoreRefines.byteAt_beyond {st : PagedFileStore} {f : Sparse.File UInt8} (h : StoreRefines st f) (x : Nat)
    (hx : st.size ≤ x) : st.byteAt x = 0 := by
  rw [h.byteAt_eq]
  exact f.zero_beyond x (h.size_eq ▸ hx)

@[simp] theorem refines_withMemUsed (u : Nat) : Refines { fs with memUsed := u } a ↔ Refines fs a := Iff.rfl

/-- a new abstract file for inode `i`, held by its store when it is a live regular file -/
theorem Refines.update (hr : Refines fs a) {f : Sparse.File UInt8}
    (hf : i ∈ fs.live → sIsDir (fs.inodes i).mode = false → StoreRefines (fs.inodes i).store f) :
    Refines fs (Function.update a i f) := by
  intro j hj hreg
  by_cases hji : j = i
  · subst hji
    rw [Function.update_self]
    exact hf hj hreg
  · rw [Function.update_of_ne hji]
    exact hr j hj hreg

/-- a new store and a new abstract file for inode `i`: the other inodes keep theirs -/
theorem Refines.setStore (hr : Refines fs a) {st : PagedFileStore} {f : Sparse.File UInt8}
    (hst : sIsDir (fs.inodes i).mode = false → StoreRefines st f) :
    Refines (fs.setStore i st) (Function.update a i f) := by
  intro j hj hreg
  by_cases hji : j = i
  · subst hji
    simp only [setStore_store_self, Function.update_self]
    exact hst (by simpa using hreg)
  · rw [setStore_inodes_ne hji, Function.update_of_ne hji]
    exact hr j hj (by simpa [setStore_mode] using hreg)

/-- a directory is never resized -/
theorem tmpfsResizeInode_dir {newSize : Nat} {slotsOk : Bool} (h : sIsDir (fs.inodes i).mode = true) :
    tmpfsResizeInode fs limit i newSize slotsOk = (fs, -EINVAL) := by
  simp [tmpfsResizeInode, h]

@[simp] theorem tmpfsResizeInode_mode (newSize : Nat) (slotsOk : Bool) (j : Nat) :
    ((tmpfsResizeInode fs limit i newSize slotsOk).1.inodes j).mode = (fs.inodes j).mode := by
  rcases tmpfsResizeInode_cases fs limit i newSize slotsOk with ⟨heq, -⟩ | ⟨-, -, -, st, heq, -⟩ <;> rw [heq]
  exact setStore_mode

/-- a read of a regular file returns the bytes of its abstract file from `pos` on, cut at the size -/
theorem tmpfsRead_refines (hr : Refines fs a) (hi : i ∈ fs.live) (hreg : sIsDir (fs.inodes i).mode = false)
    (count pos : Nat) :
    tmpfsRead fs i count pos = ((((a i).read pos count).length : Int), (a i).read pos count) := by
  have h := hr i hi hreg
  unfold tmpfsRead
  rw [pagedFileStoreReadLocked_spec, Sparse.File.length_read]
  simp only [Sparse.File.read, h.size_eq, h.byteAt_eq]

/-- a resize leaves the abstract files when it fails, and else holds the file resized -/
theorem tmpfsResizeInode_refines (hr : Refines fs a) (hi : i ∈ fs.live) (newSize : Nat) (slotsOk : Bool) :
    Refines (tmpfsResizeInode fs limit i newSize slotsOk).1
      (if (tmpfsResizeInode fs limit i newSize slotsOk).2 < 0 then a
       else Function.update a i ((a i).resize newSize)) := by
  rcases tmpfsResizeInode_cases fs limit i newSize slotsOk with
    ⟨heq, hneg | ⟨h0, hsize⟩⟩ | ⟨-, hmax, -, st, heq, hsize, hbytes, hslots⟩
  · rw [heq, if_pos hneg]
    exact hr
  · rw [heq, h0, if_neg (lt_irrefl 0)]
    refine hr.update fun _ hreg => ?_
    rw [← hsize, (hr i hi hreg).size_eq, Sparse.File.resize_self]
    exact hr i hi hreg
  · rw [heq]
    dsimp only
    rw [if_neg (lt_irrefl 0), refines_withMemUsed]
    refine hr.setStore fun hreg => ?_
    have h := hr i hi hreg
    refine ⟨by rw [hsize, Sparse.File.resize_size], hsize ▸ hmax, hsize ▸ hslots h.size_le h.slots, fun x => ?_⟩
    rw [hbytes h.size_le h.byteAt_beyond x, Sparse.File.resize_data, h.byteAt_eq]

theorem tmpfsSetattr_refines (hr : Refines fs a) (hi : i ∈ fs.live) (size : Nat) (slotsOk : Bool) :
    Refines (tmpfsSetattr fs limit i size slotsOk).1
      (if (tmpfsSetattr fs limit i size slotsOk).2 < 0 then a else Function.update a i ((a i).resize size)) := by
  unfold tmpfsSetattr
  split
  · exact tmpfsResizeInode_refines hr hi size slotsOk
  · rename_i hsame
    rw [if_neg (lt_irrefl 0)]
    refine hr.update fun _ hreg => ?_
    have hs : size = (fs.inodes i).store.size := by simpa [hreg] using hsame
    rw [hs, (hr i hi hreg).size_eq, Sparse.File.resize_self]
    exact hr i hi hreg

/-- a write whose page allocations succeed leaves the abstract files when it fails, and else holds the file written -/
theorem tmpfsWrite_refines (hr : Refines fs a) (hi : i ∈ fs.live) (pos : Nat) (buf : List UInt8) {env : StoreEnv}
    (hframe : ∀ k, env.frameOk k = true) :
    Refines (tmpfsWrite fs limit i pos buf env).1
      (if (tmpfsWrite fs limit i pos buf env).2 < 0 then a else Function.update a i ((a i).write pos buf)) := by
  rcases tmpfsWrite_cases fs limit i pos buf env with ⟨heq, hneg⟩ | ⟨h0, hsize, heq⟩
  · rw [heq, if_pos hneg]
    exact hr
  generalize hN : max (fs.inodes i).store.size (pos + buf.length) = N at h0 hsize heq
  generalize hr1 : (tmpfsResizeInode fs limit i N env.slotsOk).1 = fs1 at hsize heq
  have hrefines1 : Refines fs1 (Function.update a i ((a i).resize N)) := by
    have h : Refines (tmpfsResizeInode fs limit i N env.slotsOk).1 _ := tmpfsResizeInode_refines hr hi N env.slotsOk
    rwa [h0, if_neg (lt_irrefl 0), hr1] at h
  have hreg : sIsDir (fs.inodes i).mode = false := by
    by_contra hdir
    rw [tmpfsResizeInode_dir (by simpa using hdir)] at h0
    exact absurd h0 (by simp [EINVAL])
  have hreg1 : sIsDir (fs1.inodes i).mode = false := by rw [← hr1, tmpfsResizeInode_mode]; exact hreg
  have hlive : i ∈ fs1.live := by rw [← hr1, tmpfsResizeInode_live]; exact hi
  have h1 := hrefines1 i hlive hreg1
  rw [Function.update_self] at h1
  have hsize0 : (fs.inodes i).store.size = (a i).size := (hr i hi hreg).size_eq
  have hcover : ∀ k, pos ≤ k → k < pos + buf.length → k / PAGE_SIZE < (fs1.inodes i).store.pages.length := by
    intro k _ hk
    have hslots := h1.slots
    rw [hsize, pagedFileStorePagesForSize_eq (hsize ▸ h1.size_le)] at hslots
    have hkN : k < N := by omega
    unfold PAGE_SIZE at *
    omega
  obtain ⟨hret, hwsize, hwbytes, hwlen⟩ := pagedFileStoreWriteLocked_spec (fs1.inodes i).store (.inr hcover) hframe
  have hpos : ¬ (pagedFileStoreWriteLocked (fs1.inodes i).store buf pos env).2.1 < 0 := by
    rw [hret]
    simp
  rw [heq]
  dsimp only
  rw [if_neg hpos]
  have hw := hrefines1.setStore (i := i) (f := (a i).write pos buf) fun _ => by
    refine ⟨?_, hwsize ▸ h1.size_le, by rw [hwsize]; exact h1.slots.trans hwlen, fun x => ?_⟩
    · rw [hwsize, hsize, Sparse.File.write_size, ← hN, hsize0]
    · rw [hwbytes, Sparse.File.write_data, h1.byteAt_eq,
        Sparse.File.resize_data_of_le (a i) (by rw [← hN, ← hsize0]; exact le_max_left _ _) x]
  rwa [Function.update_idem] at hw

/-- a new inode's store holds the empty file -/
theorem create_refines (hr : Refines fs a) (mode : Nat) :
    Refines { fs with inodes := Function.update fs.inodes i ⟨mode, ⟨[], 0⟩⟩, live := insert i fs.live }
      (Function.update a i Sparse.File.empty) := by
  intro j hj hreg
  by_cases hji : j = i
  · subst hji
    simp only [Function.update_self]
    exact storeRefines_empty
  · simp only [Function.update_of_ne hji] at hreg ⊢
    exact hr j (Finset.mem_of_mem_insert_of_ne hj hji) hreg

theorem tmpfsEvictInode_refines (hr : Refines fs a) : Refines (tmpfsEvictInode fs i) a := by
  intro j hj hreg
  have hji : j ≠ i := Finset.ne_of_mem_erase hj
  have hnode : (tmpfsEvictInode fs i).inodes j = fs.inodes j := setStore_inodes_ne hji
  rw [hnode] at hreg ⊢
  exact hr j (Finset.mem_of_mem_erase hj) hreg

/-- one call, when the page allocations of a write succeed, holds in the stores what it does to the abstract files -/
theorem fileStep_refines (hr : Refines fs a) {op : FileOp} (hl : LegalFileOp fs op) (hf : op.FramesOk) :
    Refines (fileStep limit fs op).1 (op.absStep a (fileStep limit fs op).2.1) := by
  cases op with
  | create i mode => exact create_refines hr mode
  | read i count pos => exact hr
  | write i pos buf env => exact tmpfsWrite_refines hr hl pos buf hf
  | setattr i size ok => exact tmpfsSetattr_refines hr hl size ok
  | evict i => exact tmpfsEvictInode_refines hr

theorem fileStep_read (hr : Refines fs a) (hi : i ∈ fs.live) (hreg : sIsDir (fs.inodes i).mode = false)
    (count pos : Nat) :
    fileStep limit fs (.read i count pos) = (fs, (((a i).read pos count).length : Int), (a i).read pos count) := by
  simp only [fileStep, tmpfsRead_refines hr hi hreg]

end Refine

/-! ## Runs -/

section Run

variable {limit : Nat}

@[simp] theorem length_fileRun (fs : Files) (ops : List FileOp) : (fileRun limit fs ops).2.length = ops.length := by
  induction ops generalizing fs with
  | nil => rfl
  | cons op ops ih => simp [fileRun, ih]

/-- a run of two sequences is the run of the second from where the first ends -/
theorem fileRun_append (fs : Files) (pre post : List FileOp) :
    fileRun limit fs (pre ++ post) =
      ((fileRun limit (fileRun limit fs pre).1 post).1,
        (fileRun limit fs pre).2 ++ (fileRun limit (fileRun limit fs pre).1 post).2) := by
  induction pre generalizing fs with
  | nil => rfl
  | cons op pre ih => simp [fileRun, ih]

theorem legalFileRun_append (fs : Files) (pre post : List FileOp) :
    LegalFileRun limit fs (pre ++ post) ↔
      LegalFileRun limit fs pre ∧ LegalFileRun limit (fileRun limit fs pre).1 post := by
  induction pre generalizing fs with
  | nil => simp [LegalFileRun, fileRun]
  | cons op pre ih => simp [LegalFileRun, fileRun, ih, and_assoc]

variable {fs : Files} {a : Nat → Sparse.File UInt8} {ops : List FileOp}

/-- a legal run whose writes' page allocations succeed holds in the stores the abstract files of the run -/
theorem fileRun_refines (hr : Refines fs a) (hl : LegalFileRun limit fs ops) (hf : ∀ op ∈ ops, op.FramesOk) :
    Refines (fileRun limit fs ops).1 (absRun a ops (fileRun limit fs ops).2) := by
  induction ops generalizing fs a with
  | nil => exact hr
  | cons op ops ih =>
    exact ih (fileStep_refines hr hl.1 (hf op List.mem_cons_self)) hl.2 fun o ho => hf o (List.mem_cons_of_mem op ho)

/-- a read of a regular file in the middle of a run returns the bytes of the abstract file the calls before it
left -/
theorem fileRun_read {pre post : List FileOp} {i count pos : Nat} (hr : Refines fs a)
    (hl : LegalFileRun limit fs (pre ++ .read i count pos :: post)) (hf : ∀ op ∈ pre, op.FramesOk)
    (hreg : sIsDir ((fileRun limit fs pre).1.inodes i).mode = false) :
    (fileRun limit fs (pre ++ .read i count pos :: post)).2[pre.length]? =
      some ((((absRun a pre (fileRun limit fs pre).2 i).read pos count).length : Int),
        (absRun a pre (fileRun limit fs pre).2 i).read pos count) := by
  obtain ⟨hpre, hi, -⟩ := (legalFileRun_append fs pre _).1 hl
  have hr1 := fileRun_refines hr hpre hf
  rw [fileRun_append, List.getElem?_append_right (by rw [length_fileRun]), length_fileRun, Nat.sub_self]
  simp only [fileRun, fileStep_read hr1 hi hreg]
  rfl

end Run

/-! ## The contract -/

/-- what a run of calls is to do: keep the counter equal to the charge, hold in the stores the abstract files the
calls leave, and answer each read of a regular file with the bytes of the abstract file the calls before it left -/
def ContentsContract (limit : Nat) (fs : Files) (a : Nat → Sparse.File UInt8) (ops : List FileOp) : Prop :=
  MemOk (fileRun limit fs ops).1 ∧ Refines (fileRun limit fs ops).1 (absRun a ops (fileRun limit fs ops).2) ∧
    ∀ pre i count pos post, ops = pre ++ .read i count pos :: post →
      sIsDir ((fileRun limit fs pre).1.inodes i).mode = false →
      (fileRun limit fs ops).2[pre.length]? =
        some ((((absRun a pre (fileRun limit fs pre).2 i).read pos count).length : Int),
          (absRun a pre (fileRun limit fs pre).2 i).read pos count)

/-- Every legal run whose writes get their pages keeps the contract, from any files whose counter is the charge and
whose stores hold the abstract files; and a resize that fails leaves the files and the counter as they were. -/
theorem tmpfs_contents_refinement {limit : Nat} {fs : Files} {a : Nat → Sparse.File UInt8} {ops : List FileOp}
    (hm : MemOk fs) (hr : Refines fs a) (hl : LegalFileRun limit fs ops) (hf : ∀ op ∈ ops, op.FramesOk) :
    ContentsContract limit fs a ops ∧
      ∀ (fs' : Files) (j newSize : Nat) (slotsOk : Bool), (tmpfsResizeInode fs' limit j newSize slotsOk).2 < 0 →
        (tmpfsResizeInode fs' limit j newSize slotsOk).1 = fs' := by
  refine ⟨⟨fileRun_memOk hm hl, fileRun_refines hr hl hf, fun pre i count pos post hops hreg => ?_⟩,
    fun _ _ _ _ h => tmpfsResizeInode_failed h⟩
  subst hops
  exact fileRun_read hr hl (fun op hop => hf op (List.mem_append_left _ hop)) hreg

/-- the files before any inode is handed out -/
def emptyFiles : Files := ⟨fun _ => ⟨0, ⟨[], 0⟩⟩, ∅, 0⟩

/-- a regular file created, then read -/
theorem tmpfs_contents_refinement_create_read :
    MemOk emptyFiles ∧ Refines emptyFiles (fun _ => Sparse.File.empty) ∧
      LegalFileRun 0 emptyFiles [.create 0 S_IFREG, .read 0 4 0] ∧
      (∀ op ∈ [FileOp.create 0 S_IFREG, .read 0 4 0], op.FramesOk) ∧
      ContentsContract 0 emptyFiles (fun _ => Sparse.File.empty) [.create 0 S_IFREG, .read 0 4 0] := by
  have hm : MemOk emptyFiles := by simp [MemOk, Files.charged, emptyFiles]
  have hr : Refines emptyFiles (fun _ => Sparse.File.empty) := fun j hj => absurd hj (Finset.notMem_empty j)
  have hl : LegalFileRun 0 emptyFiles [.create 0 S_IFREG, .read 0 4 0] :=
    ⟨Finset.notMem_empty 0, Finset.mem_insert_self 0 ∅, trivial⟩
  have hf : ∀ op ∈ [FileOp.create 0 S_IFREG, .read 0 4 0], op.FramesOk := by simp [FileOp.FramesOk]
  exact ⟨hm, hr, hl, hf, (tmpfs_contents_refinement hm hr hl hf).1⟩

end Naos.Tmpfs
