/-
The paged file store of `fs/vfs/paged_store.h`, in which tmpfs keeps the contents of each file.

A store is a size and an array of `page_slots` slots, each the physical address of a page frame or 0. The model
keeps in a slot the bytes of its frame (none for address 0): the frames of a store come from `alloc_frames` and are
its own, so a `memcpy` through one slot changes that slot only. `byteAt` is the byte at a file offset as a reader
sees it: the byte of its page, or zero where the page is missing. The allocations (`calloc` of a larger slot array,
`alloc_frames` of a page) are the environment: one flag for the slot array and one flag per page index.

Results:
- `pagedFileStoreReadLocked_spec`: a read returns the bytes at the offsets from `pos` on, cut at the size;
- `pagedFileStoreWriteLocked_spec`: a write whose page allocations succeed, and whose slot array covers it or may
  grow, returns `count` and sets the bytes from `pos` on to the data, and no other;
- `pagedFileStoreEnsureSlots_byteAt`, `pagedFileStoreZeroTail_byteAt`: a larger slot array keeps every byte, and
  zeroing the tail clears the bytes of the last page from the size on.
-/
import Mathlib

namespace Naos.PagedStore

def PAGE_SIZE : Nat := 4096
def SIZE_MAX : Nat := 2 ^ 64 - 1
def ENOMEM : Int := 12

/-- `PADDING_DOWN`: the mask `size & ~(align - 1)` is this for the power-of-two alignments it is used with -/
def PADDING_DOWN (size align : Nat) : Nat := size / align * align

def PADDING_UP (size align : Nat) : Nat := PADDING_DOWN ((size + align - 1) % 2 ^ 64) align

/-! ## The store -/

/-- `paged_file_store_t`: the slots, `page_slots` being their number, and the size -/
structure PagedFileStore where
  pages : List (Option (Nat → UInt8))
  size : Nat

/-- what the allocator decides in one call -/
structure StoreEnv where
  /-- whether `calloc` of a larger slot array succeeds -/
  slotsOk : Bool
  /-- whether `alloc_frames` of the page of each index succeeds -/
  frameOk : Nat → Bool

/-- the environment of a call that allocates nothing -/
def noAlloc : StoreEnv := ⟨false, fun _ => false⟩

/-- the byte at offset `x`: the byte of its page, or zero where the page is missing -/
def PagedFileStore.byteAt (s : PagedFileStore) (x : Nat) : UInt8 :=
  match s.pages[x / PAGE_SIZE]? with
  | some (some p) => p (x % PAGE_SIZE)
  | _ => 0

/-- `memcpy` of `bytes` into a frame from offset `off` on -/
def copyIn (p : Nat → UInt8) (off : Nat) (bytes : List UInt8) : Nat → UInt8 :=
  fun j => if off ≤ j ∧ j < off + bytes.length then bytes.getD (j - off) 0 else p j

def pagedFileStorePagesForSize (size : Nat) : Nat := if size ≠ 0 then PADDING_UP size PAGE_SIZE / PAGE_SIZE else 0

/-- the doubling loop of `paged_file_store_ensure_slots`; a count of at least one doubles on each pass, so as many
passes as slots wanted are enough -/
def ensureSlotsLoop (slots : Nat) : Nat → Nat → Nat
  | 0, n => n
  | fuel + 1, n =>
    if n < slots then
      if n > SIZE_MAX / 2 then slots else ensureSlotsLoop slots fuel (n * 2)
    else n

/-- `paged_file_store_ensure_slots`: the slot array grown to `slots` at least, the new slots empty -/
def pagedFileStoreEnsureSlots (s : PagedFileStore) (slots : Nat) (ok : Bool) : PagedFileStore × Int :=
  if slots ≤ s.pages.length then (s, 0)
  else
    let n := ensureSlotsLoop slots slots (if s.pages.length ≠ 0 then s.pages.length else 1)
    let n := if n < slots then slots else n
    if !ok then (s, -ENOMEM)
    else ({ s with pages := s.pages ++ List.replicate (n - s.pages.length) none }, 0)

/-- the second half of `paged_file_store_resolve_page`, once the slot array reaches the index: the frame in the
slot, or with `create` a fresh zeroed one -/
def pagedFileStoreResolveSlot (s : PagedFileStore) (idx : Nat) (create : Bool) (env : StoreEnv) :
    PagedFileStore × Int × Option (Nat → UInt8) :=
  match s.pages[idx]? with
  | some (some p) => (s, 0, some p)
  | _ =>
    if !create then (s, 0, none)
    else if !env.frameOk idx then (s, -ENOMEM, none)
    else ({ s with pages := s.pages.set idx (some fun _ => 0) }, 0, some fun _ => 0)

/-- `paged_file_store_resolve_page`: the store, the return value, and the frame of the page (none for address 0);
with `create` a missing slot array or page is allocated, the page zeroed -/
def pagedFileStoreResolvePage (s : PagedFileStore) (idx : Nat) (create : Bool) (env : StoreEnv) :
    PagedFileStore × Int × Option (Nat → UInt8) :=
  if s.pages.length ≤ idx then
    if !create then (s, 0, none)
    else
      let r := pagedFileStoreEnsureSlots s (idx + 1) env.slotsOk
      if r.2 < 0 then (r.1, r.2, none) else pagedFileStoreResolveSlot r.1 idx create env
  else pagedFileStoreResolveSlot s idx create env

/-- `paged_file_store_zero_tail`: the bytes of the page of `size` from `size` on cleared -/
def pagedFileStoreZeroTail (s : PagedFileStore) (size : Nat) : PagedFileStore :=
  if size &&& (PAGE_SIZE - 1) = 0 then s
  else
    let tailPage := size / PAGE_SIZE
    match (pagedFileStoreResolvePage s tailPage false noAlloc).2.2 with
    | some p =>
      let cleared : Nat → UInt8 := fun j => if size % PAGE_SIZE ≤ j ∧ j < PAGE_SIZE then 0 else p j
      { s with pages := s.pages.set tailPage (some cleared) }
    | none => s

/-! ## Reading and writing -/

/-- the loop of `paged_file_store_read_locked` from `copied` on: the bytes it copies into the buffer; each pass
copies a byte at least, so as many passes as bytes are enough -/
def readLoop (s : PagedFileStore) (pos copyLen : Nat) : Nat → Nat → List UInt8
  | 0, _ => []
  | fuel + 1, copied =>
    if copied < copyLen then
      let fileOff := pos + copied
      let pageIdx := fileOff / PAGE_SIZE
      let inPage := fileOff % PAGE_SIZE
      let chunk := min (copyLen - copied) (PAGE_SIZE - inPage)
      -- a missing page is copied out as zeros
      let bytes := match (pagedFileStoreResolvePage s pageIdx false noAlloc).2.2 with
        | some p => (List.range chunk).map fun k => p (inPage + k)
        | none => List.replicate chunk 0
      bytes ++ readLoop s pos copyLen fuel (copied + chunk)
    else []

/-- `paged_file_store_read_locked`: the return value, the bytes copied and the new file position -/
def pagedFileStoreReadLocked (s : PagedFileStore) (count pos : Nat) : Int × List UInt8 × Nat :=
  if s.size ≤ pos then (0, [], pos)
  else
    let copyLen := min count (s.size - pos)
    (copyLen, readLoop s pos copyLen copyLen 0, pos + copyLen)

/-- the loop of `paged_file_store_write_locked` from `copied` on: the store and 0, or the error of the page that
could not be resolved; each pass copies a byte at least -/
def writeLoop (pos : Nat) (buf : List UInt8) (env : StoreEnv) : Nat → Nat → PagedFileStore → PagedFileStore × Int
  | 0, _, s => (s, 0)
  | fuel + 1, copied, s =>
    if copied < buf.length then
      let fileOff := pos + copied
      let pageIdx := fileOff / PAGE_SIZE
      let inPage := fileOff % PAGE_SIZE
      let chunk := min (buf.length - copied) (PAGE_SIZE - inPage)
      let r := pagedFileStoreResolvePage s pageIdx true env
      if r.2.1 < 0 then (r.1, r.2.1)
      else
        let p := r.2.2.getD fun _ => 0
        let s2 := { r.1 with pages := r.1.pages.set pageIdx (some (copyIn p inPage ((buf.drop copied).take chunk))) }
        writeLoop pos buf env fuel (copied + chunk) s2
    else (s, 0)

/-- `paged_file_store_write_locked`: the store, the return value and the new file position -/
def pagedFileStoreWriteLocked (s : PagedFileStore) (buf : List UInt8) (pos : Nat) (env : StoreEnv) :
    PagedFileStore × Int × Nat :=
  let r := writeLoop pos buf env buf.length 0 s
  if r.2 < 0 then (r.1, r.2, pos) else (r.1, buf.length, pos + buf.length)

/-! ## Bytes -/

section Bytes

variable {s : PagedFileStore} {idx x : Nat}

/-- a page slot set: the bytes of its page are those of the frame, the others stay -/
theorem byteAt_set (p : Nat → UInt8) (x : Nat) :
    ({ s with pages := s.pages.set idx (some p) } : PagedFileStore).byteAt x =
      if x / PAGE_SIZE = idx ∧ idx < s.pages.length then p (x % PAGE_SIZE) else s.byteAt x := by
  unfold PagedFileStore.byteAt
  rw [List.getElem?_set]
  by_cases hx : x / PAGE_SIZE = idx
  · subst hx
    by_cases hl : x / PAGE_SIZE < s.pages.length <;> simp [hl]
  · simp [Ne.symm hx, hx]

/-- an emptied slot reads as zeros -/
theorem byteAt_set_none (x : Nat) :
    ({ s with pages := s.pages.set idx none } : PagedFileStore).byteAt x =
      if x / PAGE_SIZE = idx then 0 else s.byteAt x := by
  unfold PagedFileStore.byteAt
  rw [List.getElem?_set]
  by_cases hx : x / PAGE_SIZE = idx
  · subst hx
    by_cases hl : x / PAGE_SIZE < s.pages.length <;> simp [hl]
  · simp [Ne.symm hx, hx]

/-- new empty slots read as zeros, as a missing slot does -/
@[simp] theorem byteAt_append_none (n x : Nat) :
    ({ s with pages := s.pages ++ List.replicate n none } : PagedFileStore).byteAt x = s.byteAt x := by
  unfold PagedFileStore.byteAt
  by_cases hl : x / PAGE_SIZE < s.pages.length
  · rw [List.getElem?_append_left hl]
  · have hnone : s.pages[x / PAGE_SIZE]? = none := List.getElem?_eq_none_iff.2 (by omega)
    rw [List.getElem?_append_right (by omega), hnone, List.getElem?_replicate]
    split_ifs <;> rfl

@[simp] theorem byteAt_setSize (n x : Nat) : ({ s with size := n } : PagedFileStore).byteAt x = s.byteAt x := rfl

/-- offsets in the page of `x` from `x` on that the page holds: the page and the place in it move together -/
theorem div_mod_add (h : x % PAGE_SIZE + k < PAGE_SIZE) :
    (x + k) / PAGE_SIZE = x / PAGE_SIZE ∧ (x + k) % PAGE_SIZE = x % PAGE_SIZE + k := by
  unfold PAGE_SIZE at *
  omega

/-- two runs of consecutive offsets glued -/
theorem map_range_add {α : Type} (g : Nat → α) (a b : Nat) :
    (List.range a).map g ++ (List.range b).map (fun k => g (a + k)) = (List.range (a + b)).map g := by
  rw [List.range_add, List.map_append, List.map_map]
  rfl

end Bytes

/-! ## The slot array -/

section Slots

variable {s : PagedFileStore} {slots : Nat} {ok : Bool}

/-- `paged_file_store_ensure_slots` keeps the store when the array is large enough, fails and keeps it when the
allocation fails, and else appends empty slots up to `slots` at least -/
theorem pagedFileStoreEnsureSlots_cases (s : PagedFileStore) (slots : Nat) (ok : Bool) :
    (pagedFileStoreEnsureSlots s slots ok = (s, 0) ∧ slots ≤ s.pages.length) ∨
    (pagedFileStoreEnsureSlots s slots ok = (s, -ENOMEM) ∧ ok = false) ∨
    ∃ n, slots ≤ s.pages.length + n ∧
      pagedFileStoreEnsureSlots s slots ok = ({ s with pages := s.pages ++ List.replicate n none }, 0) := by
  unfold pagedFileStoreEnsureSlots
  split
  · exact .inl ⟨rfl, by omega⟩
  · dsimp only
    split
    · rename_i hok
      exact .inr (.inl ⟨rfl, by simpa using hok⟩)
    · refine .inr (.inr ⟨_, ?_, rfl⟩)
      generalize ensureSlotsLoop slots slots _ = m
      split <;> omega

@[simp] theorem pagedFileStoreEnsureSlots_byteAt (x : Nat) :
    (pagedFileStoreEnsureSlots s slots ok).1.byteAt x = s.byteAt x := by
  rcases pagedFileStoreEnsureSlots_cases s slots ok with ⟨h, -⟩ | ⟨h, -⟩ | ⟨n, -, h⟩ <;>
    simp [h]

@[simp] theorem pagedFileStoreEnsureSlots_size : (pagedFileStoreEnsureSlots s slots ok).1.size = s.size := by
  rcases pagedFileStoreEnsureSlots_cases s slots ok with ⟨h, -⟩ | ⟨h, -⟩ | ⟨n, -, h⟩ <;>
    simp [h]

/-- a growth that succeeds leaves `slots` slots at least, and one that fails changes nothing -/
theorem pagedFileStoreEnsureSlots_ret (s : PagedFileStore) (slots : Nat) (ok : Bool) :
    ((pagedFileStoreEnsureSlots s slots ok).2 = 0 ∧ slots ≤ (pagedFileStoreEnsureSlots s slots ok).1.pages.length) ∨
    (pagedFileStoreEnsureSlots s slots ok = (s, -ENOMEM) ∧ ok = false) := by
  rcases pagedFileStoreEnsureSlots_cases s slots ok with ⟨h, hl⟩ | h | ⟨n, hl, h⟩
  · exact .inl ⟨by simp [h], by simpa [h] using hl⟩
  · exact .inr h
  · exact .inl ⟨by simp [h], by simpa [h] using hl⟩

end Slots

/-! ## Resolving a page -/

section Resolve

variable {s : PagedFileStore} {idx : Nat} {env : StoreEnv}

@[simp] theorem pagedFileStoreResolveSlot_size (create : Bool) :
    (pagedFileStoreResolveSlot s idx create env).1.size = s.size := by
  unfold pagedFileStoreResolveSlot
  split
  · rfl
  · split_ifs <;> rfl

/-- a frame the slot gets is zeroed, so the store reads as before -/
@[simp] theorem pagedFileStoreResolveSlot_byteAt (create : Bool) (x : Nat) :
    (pagedFileStoreResolveSlot s idx create env).1.byteAt x = s.byteAt x := by
  unfold pagedFileStoreResolveSlot
  split
  · rfl
  · rename_i hnot
    split_ifs
    · rfl
    · rfl
    · rw [byteAt_set]
      split
      · rename_i hx
        unfold PagedFileStore.byteAt
        rw [hx.1]
        split
        · rename_i p hp
          exact absurd hp (hnot p)
        · rfl
      · rfl

@[simp] theorem pagedFileStoreResolveSlot_length (create : Bool) :
    (pagedFileStoreResolveSlot s idx create env).1.pages.length = s.pages.length := by
  unfold pagedFileStoreResolveSlot
  split
  · rfl
  · split_ifs <;> simp

/-- with `create` and a frame to be had, the slot holds the frame found or made -/
theorem pagedFileStoreResolveSlot_create (s : PagedFileStore) (idx : Nat) (env : StoreEnv)
    (hidx : idx < s.pages.length) (hframe : env.frameOk idx = true) :
    ∃ p, (pagedFileStoreResolveSlot s idx true env).2 = (0, some p) ∧
      (pagedFileStoreResolveSlot s idx true env).1.pages[idx]? = some (some p) := by
  unfold pagedFileStoreResolveSlot
  split
  · rename_i p hp
    exact ⟨p, rfl, hp⟩
  · simp [hframe, hidx]

/-- without `create` a page is looked up only -/
theorem pagedFileStoreResolvePage_lookup :
    pagedFileStoreResolvePage s idx false env = (s, 0, s.pages[idx]?.join) := by
  unfold pagedFileStoreResolvePage pagedFileStoreResolveSlot
  by_cases hl : s.pages.length ≤ idx
  · simp [hl]
  · have hget : s.pages[idx]? = some s.pages[idx] := List.getElem?_eq_getElem (by omega)
    simp only [hl, if_false, hget]
    rcases s.pages[idx] with _ | p <;> rfl

/-- the page a lookup finds is what the store reads at the offsets of that page -/
theorem byteAt_of_lookup {x : Nat} :
    s.byteAt x = ((s.pages[x / PAGE_SIZE]?).join).elim 0 fun p => p (x % PAGE_SIZE) := by
  unfold PagedFileStore.byteAt
  split
  · simp_all
  · rename_i hnot
    cases h : s.pages[x / PAGE_SIZE]? with
    | none => rfl
    | some o =>
      cases o with
      | none => rfl
      | some p => exact absurd h (hnot p)

@[simp] theorem pagedFileStoreResolvePage_size (create : Bool) :
    (pagedFileStoreResolvePage s idx create env).1.size = s.size := by
  unfold pagedFileStoreResolvePage
  split
  · split
    · rfl
    · dsimp only
      split <;> simp
  · simp

/-- with `create`, and allocations that succeed, a page is found or made: the store reads as before, and the slot
holds the page -/
theorem pagedFileStoreResolvePage_create (s : PagedFileStore) (idx : Nat)
    (hslots : env.slotsOk = true ∨ idx < s.pages.length) (hframe : env.frameOk idx = true) :
    ∃ s1 p, pagedFileStoreResolvePage s idx true env = (s1, 0, some p) ∧ (∀ x, s1.byteAt x = s.byteAt x) ∧
      s1.size = s.size ∧ s1.pages[idx]? = some (some p) ∧ s.pages.length ≤ s1.pages.length := by
  unfold pagedFileStoreResolvePage
  split
  · have hok : env.slotsOk = true := hslots.resolve_right (by omega)
    rcases pagedFileStoreEnsureSlots_ret s (idx + 1) env.slotsOk with ⟨h0, hl⟩ | ⟨-, hok'⟩
    · obtain ⟨p, hp, hslot⟩ :=
        pagedFileStoreResolveSlot_create (pagedFileStoreEnsureSlots s (idx + 1) env.slotsOk).1 idx env (by omega) hframe
      refine ⟨_, p, ?_, fun x => by simp, by simp, hslot, by simp; omega⟩
      simp only [Bool.not_true, Bool.false_eq_true, if_false, h0, lt_irrefl]
      exact Prod.ext rfl hp
    · simp [hok] at hok'
  · obtain ⟨p, hp, hslot⟩ := pagedFileStoreResolveSlot_create s idx env (by omega) hframe
    exact ⟨_, p, Prod.ext rfl hp, fun x => by simp, by simp, hslot, by simp⟩

end Resolve

/-! ## Zeroing the tail -/

section ZeroTail

variable {s : PagedFileStore}

theorem land_page_mask (size : Nat) : size &&& (PAGE_SIZE - 1) = size % PAGE_SIZE :=
  Nat.and_two_pow_sub_one_eq_mod size 12

/-- zeroing the tail clears the offsets from `size` on in the page of `size`, when `size` lies inside a page -/
theorem pagedFileStoreZeroTail_byteAt (size x : Nat) :
    (pagedFileStoreZeroTail s size).byteAt x =
      if size % PAGE_SIZE ≠ 0 ∧ size ≤ x ∧ x / PAGE_SIZE = size / PAGE_SIZE then 0 else s.byteAt x := by
  unfold pagedFileStoreZeroTail
  rw [land_page_mask]
  split
  · rename_i h0
    simp [h0]
  rename_i h0
  dsimp only
  rw [pagedFileStoreResolvePage_lookup]
  dsimp only
  by_cases hx : x / PAGE_SIZE = size / PAGE_SIZE
  · have hle : size ≤ x ↔ size % PAGE_SIZE ≤ x % PAGE_SIZE := by
      unfold PAGE_SIZE at *
      omega
    have hlt : x % PAGE_SIZE < PAGE_SIZE := Nat.mod_lt _ (by decide)
    have hbyte := byteAt_of_lookup (s := s) (x := x)
    rw [hx] at hbyte
    split
    · rename_i p hp
      have hl : size / PAGE_SIZE < s.pages.length := by
        by_contra hl
        rw [List.getElem?_eq_none_iff.2 (by omega)] at hp
        cases hp
      rw [byteAt_set, if_pos ⟨hx, hl⟩, hbyte, hp]
      simp [h0, hle, hx, hlt]
    · rename_i hnone
      have hzero : s.byteAt x = 0 := by rw [hbyte, hnone]; rfl
      simp [hzero]
  · split
    · rw [byteAt_set, if_neg fun h => hx h.1, if_neg fun h => hx h.2.2]
    · rw [if_neg fun h => hx h.2.2]

@[simp] theorem pagedFileStoreZeroTail_length (size : Nat) :
    (pagedFileStoreZeroTail s size).pages.length = s.pages.length := by
  unfold pagedFileStoreZeroTail
  split
  · rfl
  · dsimp only
    split <;> simp

end ZeroTail

/-! ## Reading -/

section Read

variable {s : PagedFileStore} {pos copyLen : Nat}

/-- what one pass copies out of a page: the bytes the store reads at the offsets of the chunk -/
theorem chunk_read {x c : Nat} (hc : x % PAGE_SIZE + c ≤ PAGE_SIZE) :
    (match (pagedFileStoreResolvePage s (x / PAGE_SIZE) false noAlloc).2.2 with
      | some p => (List.range c).map fun k => p (x % PAGE_SIZE + k)
      | none => List.replicate c 0) = (List.range c).map fun k => s.byteAt (x + k) := by
  have hbyte : ∀ k ∈ List.range c,
      s.byteAt (x + k) = ((s.pages[x / PAGE_SIZE]?).join).elim 0 fun p => p (x % PAGE_SIZE + k) := by
    intro k hk
    obtain ⟨hdiv, hmod⟩ := div_mod_add (x := x) (k := k) (by have := List.mem_range.1 hk; omega)
    rw [byteAt_of_lookup, hdiv, hmod]
  rw [pagedFileStoreResolvePage_lookup]
  dsimp only
  split
  · rename_i p hp
    exact List.map_congr_left fun k hk => by rw [hbyte k hk, hp]; rfl
  · rename_i hnone
    have hzero : ((List.range c).map fun k => s.byteAt (x + k)) = (List.range c).map fun _ => (0 : UInt8) :=
      List.map_congr_left fun k hk => by rw [hbyte k hk, hnone]; rfl
    rw [hzero]
    simp

/-- the read loop copies the bytes at the offsets still to copy, one page at a time -/
theorem readLoop_spec : ∀ fuel copied, copyLen - copied ≤ fuel →
    readLoop s pos copyLen fuel copied = (List.range (copyLen - copied)).map fun k => s.byteAt (pos + copied + k)
  | 0, copied, h => by simp [readLoop, show copyLen - copied = 0 by omega]
  | fuel + 1, copied, h => by
    unfold readLoop
    split
    · rename_i hlt
      dsimp only
      have hin : (pos + copied) % PAGE_SIZE < PAGE_SIZE := Nat.mod_lt _ (by decide)
      generalize hc : min (copyLen - copied) (PAGE_SIZE - (pos + copied) % PAGE_SIZE) = c
      have hc1 : 1 ≤ c := by omega
      have hcp : (pos + copied) % PAGE_SIZE + c ≤ PAGE_SIZE := by omega
      rw [chunk_read hcp, readLoop_spec fuel (copied + c) (by omega),
        show copyLen - copied = c + (copyLen - (copied + c)) by omega, ← map_range_add]
      simp only [Nat.add_assoc]
    · simp [show copyLen - copied = 0 by omega]

/-- `paged_file_store_read_locked` returns the bytes from `pos` on, `count` at most, cut at the size -/
theorem pagedFileStoreReadLocked_spec (count pos : Nat) :
    pagedFileStoreReadLocked s count pos =
      (((min count (s.size - pos) : Nat) : Int), (List.range (min count (s.size - pos))).map (fun k => s.byteAt (pos + k)),
        pos + min count (s.size - pos)) := by
  unfold pagedFileStoreReadLocked
  split
  · rename_i h
    simp [Nat.sub_eq_zero_of_le h]
  · dsimp only
    rw [readLoop_spec _ _ (by omega)]
    simp

end Read

/-! ## Writing -/

section Write

variable {pos : Nat} {buf : List UInt8} {env : StoreEnv}

/-- a `memcpy` of `bytes` at offset `y`, within the page of `y` and into the frame of its slot, sets the offsets from
`y` on to the bytes -/
theorem byteAt_copyIn {s1 : PagedFileStore} {y c : Nat} {p : Nat → UInt8} {bytes : List UInt8}
    (hslot : s1.pages[y / PAGE_SIZE]? = some (some p)) (hc : y % PAGE_SIZE + c ≤ PAGE_SIZE) (hlen : bytes.length = c)
    (x : Nat) :
    ({ s1 with pages := s1.pages.set (y / PAGE_SIZE) (some (copyIn p (y % PAGE_SIZE) bytes)) } :
      PagedFileStore).byteAt x = if y ≤ x ∧ x < y + c then bytes.getD (x - y) 0 else s1.byteAt x := by
  have hl : y / PAGE_SIZE < s1.pages.length := by
    by_contra hl
    rw [List.getElem?_eq_none_iff.2 (by omega)] at hslot
    cases hslot
  rw [byteAt_set]
  by_cases hx : x / PAGE_SIZE = y / PAGE_SIZE
  · have hiff : (y % PAGE_SIZE ≤ x % PAGE_SIZE ∧ x % PAGE_SIZE < y % PAGE_SIZE + c) ↔ (y ≤ x ∧ x < y + c) := by
      unfold PAGE_SIZE at *
      omega
    have hplace : y ≤ x → x % PAGE_SIZE - y % PAGE_SIZE = x - y := by
      unfold PAGE_SIZE at *
      omega
    rw [if_pos ⟨hx, hl⟩, copyIn, hlen]
    by_cases hin : y ≤ x ∧ x < y + c
    · rw [if_pos (hiff.2 hin), if_pos hin, hplace hin.1]
    · rw [if_neg (fun h => hin (hiff.1 h)), if_neg hin, byteAt_of_lookup, hx, hslot]
      rfl
  · have hout : ¬(y ≤ x ∧ x < y + c) := fun h => hx (by unfold PAGE_SIZE at *; omega)
    rw [if_neg fun h => hx h.1, if_neg hout]

/-- the bytes of a chunk of the buffer are those of the buffer -/
theorem getD_take_drop (copied c k : Nat) (hk : k < c) :
    ((buf.drop copied).take c).getD k 0 = buf.getD (copied + k) 0 := by
  simp [List.getD_eq_getElem?_getD, hk, List.getElem?_drop]

/-- the write loop keeps the size, whatever the allocations do -/
@[simp] theorem writeLoop_size : ∀ fuel copied s, (writeLoop pos buf env fuel copied s).1.size = s.size
  | 0, _, _ => rfl
  | fuel + 1, copied, s => by
    unfold writeLoop
    split
    · dsimp only
      split
      · simp
      · rw [writeLoop_size]
        simp
    · rfl

@[simp] theorem pagedFileStoreWriteLocked_size (s : PagedFileStore) :
    (pagedFileStoreWriteLocked s buf pos env).1.size = s.size := by
  unfold pagedFileStoreWriteLocked
  dsimp only
  split <;> simp

/-- with allocations that succeed the write loop returns 0, and sets the offsets still to write to the data -/
theorem writeLoop_spec (pos : Nat) (buf : List UInt8) (hframe : ∀ i, env.frameOk i = true) :
    ∀ fuel copied s, buf.length - copied ≤ fuel →
      (env.slotsOk = true ∨ ∀ k, pos + copied ≤ k → k < pos + buf.length → k / PAGE_SIZE < s.pages.length) →
      (writeLoop pos buf env fuel copied s).2 = 0 ∧
      (∀ x, (writeLoop pos buf env fuel copied s).1.byteAt x =
        if pos + copied ≤ x ∧ x < pos + buf.length then buf.getD (x - pos) 0 else s.byteAt x) ∧
      s.pages.length ≤ (writeLoop pos buf env fuel copied s).1.pages.length
  | 0, copied, s, h, _ => ⟨rfl, fun x => by rw [if_neg (by omega)]; rfl, le_rfl⟩
  | fuel + 1, copied, s, h, hslots => by
    unfold writeLoop
    split
    · rename_i hlt
      dsimp only
      obtain ⟨s1, p, hr, hbytes, -, hslot, hlen1⟩ :=
        pagedFileStoreResolvePage_create s ((pos + copied) / PAGE_SIZE)
          (hslots.imp_right fun hk => hk (pos + copied) le_rfl (by omega)) (hframe _)
      rw [hr]
      simp only [lt_irrefl, if_false, Option.getD_some]
      have hin : (pos + copied) % PAGE_SIZE < PAGE_SIZE := Nat.mod_lt _ (by decide)
      generalize hc : min (buf.length - copied) (PAGE_SIZE - (pos + copied) % PAGE_SIZE) = c
      have hc1 : 1 ≤ c := by omega
      have hcp : (pos + copied) % PAGE_SIZE + c ≤ PAGE_SIZE := by omega
      have hlen : ((buf.drop copied).take c).length = c := by simp; omega
      obtain ⟨h0, hrest, hlen2⟩ := writeLoop_spec pos buf hframe fuel (copied + c)
        ⟨s1.pages.set ((pos + copied) / PAGE_SIZE) (some (copyIn p ((pos + copied) % PAGE_SIZE)
          ((buf.drop copied).take c))), s1.size⟩ (by omega)
        (hslots.imp_right fun hk k hk1 hk2 => by simp only [List.length_set]; have := hk k (by omega) hk2; omega)
      refine ⟨h0, fun x => ?_, by simp only [List.length_set] at hlen2; omega⟩
      rw [hrest, byteAt_copyIn hslot hcp hlen, hbytes]
      by_cases h1 : pos + (copied + c) ≤ x ∧ x < pos + buf.length
      · rw [if_pos h1, if_pos (by omega)]
      · rw [if_neg h1]
        by_cases h2 : pos + copied ≤ x ∧ x < pos + copied + c
        · rw [if_pos h2, if_pos (by omega), getD_take_drop copied c _ (by omega)]
          congr 1
          omega
        · rw [if_neg h2, if_neg (by omega)]
    · exact ⟨rfl, fun x => by rw [if_neg (by omega)], le_rfl⟩

/-- `paged_file_store_write_locked` with allocations that succeed returns `count`, moves the position by it, and
sets the bytes from `pos` on to the data -/
theorem pagedFileStoreWriteLocked_spec (s : PagedFileStore)
    (hslots : env.slotsOk = true ∨ ∀ k, pos ≤ k → k < pos + buf.length → k / PAGE_SIZE < s.pages.length)
    (hframe : ∀ i, env.frameOk i = true) :
    (pagedFileStoreWriteLocked s buf pos env).2 = ((buf.length : Int), pos + buf.length) ∧
      (pagedFileStoreWriteLocked s buf pos env).1.size = s.size ∧
      (∀ x, (pagedFileStoreWriteLocked s buf pos env).1.byteAt x =
        if pos ≤ x ∧ x < pos + buf.length then buf.getD (x - pos) 0 else s.byteAt x) ∧
      s.pages.length ≤ (pagedFileStoreWriteLocked s buf pos env).1.pages.length := by
  obtain ⟨h0, hbytes, hlen⟩ := writeLoop_spec pos buf hframe buf.length 0 s (by omega) (by simpa using hslots)
  unfold pagedFileStoreWriteLocked
  simp only [h0, lt_irrefl, if_false, writeLoop_size, true_and]
  exact ⟨by simpa using hbytes, hlen⟩

end Write

end Naos.PagedStore
