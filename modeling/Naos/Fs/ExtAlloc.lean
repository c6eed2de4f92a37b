/-
The block and inode allocators of the ext driver, in `modules/fs/ext/ext.c`: `ext_alloc_blocks_locked`,
`ext_alloc_block_locked`, `ext_free_block_locked`, `ext_alloc_inode_locked` and `ext_free_inode_locked`, with the
lazy bitmap initialisation of uninitialised groups and the marking of each group's metadata blocks.

A group's bitmaps are blocks of the device. An allocation reads the group's bitmap, marks the group's metadata in it
(the superblock and descriptor copies, and every group's bitmaps and inode table that lie in the group), sets the bits
past the group's end, counts the clear bits, takes the first clear bit from the goal on and the run of clear bits
after it, zeroes the run's blocks, sets its bits and writes the bitmap back, then sets the descriptor's count from the
bitmap and the superblock's from the descriptors. A free clears the bit and does the same marking and counting.

The descriptor fields no call changes (the bitmap and inode-table locations) are kept with the geometry in
`Layout`; the device reads and writes, and `calloc`, are taken to succeed.

Results:
- `extAllocBlocksLocked_run`: an allocation returns a run of one to `want` blocks inside one group and inside
  `[s_first_data_block, blocks_count)`, whose bits were clear before and are set after, and whose blocks read zero;
- `extAllocInodeLocked_ino`: an inode allocation returns an inode at or past the first non-reserved one, whose bit
  was clear before and is set after;
- `extFreeBlockLocked_noop`: freeing a metadata block or a free block leaves the file system as it was;
- `Consistent.extStep`, `Consistent.extRun`: every call keeps each descriptor's counts equal to the clear bits of its
  bitmaps, the superblock's counts equal to the sums, and the metadata and padding bits set;
- `extRun_no_double_alloc`, `extRun_no_double_alloc_inode`: a block or an inode is handed out again only after a
  free of it;
- `extRun_contract`: all of these, from every file system that keeps the invariant on;
- `extAllocInodePass_of_full`, `extAllocInodePass_of_first`: a pass finds nothing in a full group, and otherwise
  takes the first clear bit at or past the first non-reserved inode.

The invariant needs group 0 initialised, and the code does not ensure it: `ext_free_inode_locked` frees reserved
inodes too and leaves `EXT4_BG_INODE_UNINIT` as it is. `free_reserved_inode_desyncs` (through
`freeInode_reserved_desyncs`) takes a file system that passes the mount's checks, group 0 uninitialised and holding
reserved inodes only: freeing inode 1 and allocating leave group 0 counting a free inode its bitmap does not have.
-/
import Mathlib
import Naos.Lib.ByteBitmap

namespace Naos.Ext

open ByteBitmap

def EINVAL : Int := 22
def ENOSPC : Int := 28
def EXT2_GOOD_OLD_FIRST_INO : Nat := 11
def EXT2_S_IFDIR : Nat := 0x4000
def S_IFMT : Nat := 0xF000
def EXT_MAX_BLOCK_SIZE : Nat := 4096
def EXT2_GOOD_OLD_INODE_SIZE : Nat := 128
def UINT32_MAX : Nat := 2 ^ 32 - 1

/-! ## The file system -/

/-- what no allocator call changes: the superblock's geometry, and where each group keeps its bitmaps and inode
table -/
structure Layout where
  blockSize : Nat
  /-- `s_first_data_block` -/
  firstDataBlock : Nat
  blocksPerGroup : Nat
  inodesPerGroup : Nat
  /-- `s_first_ino` -/
  firstIno : Nat
  reservedGdtBlocks : Nat
  /-- `EXT2_FEATURE_RO_COMPAT_SPARSE_SUPER` -/
  sparseSuper : Bool
  inodeSize : Nat
  descSize : Nat
  blocksCount : Nat
  inodesCount : Nat
  groupCount : Nat
  /-- `ext_group_block_bitmap` of each descriptor -/
  blockBitmap : Nat → Nat
  /-- `ext_group_inode_bitmap` -/
  inodeBitmap : Nat → Nat
  /-- `ext_group_inode_table` -/
  inodeTable : Nat → Nat

/-- the fields of a group descriptor the allocators change; the flags `EXT4_BG_BLOCK_UNINIT`,
`EXT4_BG_INODE_UNINIT` and `EXT4_BG_INODE_ZEROED` are Booleans -/
structure GroupCounts where
  freeBlocks : Nat
  freeInodes : Nat
  usedDirs : Nat
  blockUninit : Bool
  inodeUninit : Bool
  inodeZeroed : Bool

/-- `ext_mount_ctx_t` as the allocators see it: the layout, the descriptors, the superblock's free counts and the
device, one block of bytes per block number -/
structure ExtFs where
  layout : Layout
  groups : Nat → GroupCounts
  freeBlocksCount : Nat
  freeInodesCount : Nat
  disk : Nat → Nat → BitVec 8

/-! ## Geometry -/

section Geometry

variable (L : Layout)

def extGroupFirstBlock (group : Nat) : Nat := L.firstDataBlock + group * L.blocksPerGroup

def extGroupBlocksCount (group : Nat) : Nat :=
  let start := extGroupFirstBlock L group
  if start ≥ L.blocksCount then 0 else min L.blocksPerGroup (L.blocksCount - start)

def extGroupInodesCount (group : Nat) : Nat :=
  let start := group * L.inodesPerGroup
  if start ≥ L.inodesCount then 0 else min L.inodesPerGroup (L.inodesCount - start)

def extGroupInodeStart (group : Nat) : Nat := group * L.inodesPerGroup + 1

def extFirstNonreservedInode : Nat := if L.firstIno ≠ 0 then L.firstIno else EXT2_GOOD_OLD_FIRST_INO

def extGroupReservedInodeCount (group : Nat) : Nat :=
  let firstNonreserved := extFirstNonreservedInode L
  let groupStart := extGroupInodeStart L group
  let groupEnd := groupStart + extGroupInodesCount L group
  if firstNonreserved ≤ groupStart then 0
  else if groupStart ≥ groupEnd then 0
  else if firstNonreserved ≥ groupEnd then groupEnd - groupStart
  else firstNonreserved - groupStart

/-- the bit of `block` in the bitmap of `group`, when the group holds it -/
def extGroupContainsBlock (group block : Nat) : Option Nat :=
  if group ≥ L.groupCount then none
  else
    let first := extGroupFirstBlock L group
    if block < first ∨ block ≥ first + extGroupBlocksCount L group then none else some (block - first)

/-- the loop `while (n && n % p == 0) n /= p`, with fuel: each pass divides `n` by `p` -/
def stripFactor (p : Nat) : Nat → Nat → Nat
  | 0, n => n
  | fuel + 1, n => if n ≠ 0 ∧ n % p = 0 then stripFactor p fuel (n / p) else n

def extSparseSuperGroup (group : Nat) : Bool :=
  group = 0 || group = 1 || stripFactor 3 group group = 1 || stripFactor 5 group group = 1 ||
    stripFactor 7 group group = 1

def extGroupHasSuper (group : Nat) : Bool :=
  if group ≥ L.groupCount then false else !L.sparseSuper || extSparseSuperGroup group

def extGdtBlocks : Nat :=
  if L.descSize = 0 then 0 else (L.groupCount * L.descSize + L.blockSize - 1) / L.blockSize

end Geometry

/-! ## Bitmaps -/

section Marking

variable (L : Layout)

/-- `ext_mark_block_bitmap_range`: the blocks of `[start, start + count)` that lie in the group -/
def extMarkBlockBitmapRange (group : Nat) (bitmap : Nat → BitVec 8) (start count : Nat) : Nat → BitVec 8 :=
  if count = 0 ∨ group ≥ L.groupCount then bitmap
  else
    let first := extGroupFirstBlock L group
    let groupBlocks := extGroupBlocksCount L group
    if start ≥ first + groupBlocks ∨ start + count ≤ first then bitmap
    else
      let lo := if start > first then start else first
      let hi := min (start + count) (first + groupBlocks)
      setRange bitmap (lo - first) (hi - lo)

/-- the marks the loop over `owner` makes: its block bitmap, inode bitmap and inode table where they lie in the
group -/
def markOwner (group itableBlocks owner : Nat) (bitmap : Nat → BitVec 8) : Nat → BitVec 8 :=
  let bitmap := match extGroupContainsBlock L group (L.blockBitmap owner) with
    | some bit => setBit bitmap bit
    | none => bitmap
  let bitmap := match extGroupContainsBlock L group (L.inodeBitmap owner) with
    | some bit => setBit bitmap bit
    | none => bitmap
  extMarkBlockBitmapRange L group bitmap (L.inodeTable owner) itableBlocks

/-- `ext_mark_block_group_metadata`: the superblock, descriptor and reserved descriptor copies of a group that has
them, and every group's bitmaps and inode table that lie in the group (flex_bg) -/
def extMarkBlockGroupMetadata (group : Nat) (bitmap : Nat → BitVec 8) : Nat → BitVec 8 :=
  if group ≥ L.groupCount then bitmap
  else
    let first := extGroupFirstBlock L group
    let gdtBlock := first + 1
    let bitmap :=
      if extGroupHasSuper L group then
        let bitmap := extMarkBlockBitmapRange L group bitmap first 1
        let bitmap := extMarkBlockBitmapRange L group bitmap gdtBlock (extGdtBlocks L)
        extMarkBlockBitmapRange L group bitmap (gdtBlock + extGdtBlocks L) L.reservedGdtBlocks
      else bitmap
    let itableBlocks := (L.inodesPerGroup * L.inodeSize + L.blockSize - 1) / L.blockSize
    (List.range L.groupCount).foldl (fun bitmap owner => markOwner L group itableBlocks owner bitmap) bitmap

/-- `ext_bitmap_set_padding`: every bit past the group's valid range is set -/
def extBitmapSetPadding (bitmap : Nat → BitVec 8) (validBits : Nat) : Nat → BitVec 8 :=
  let totalBits := L.blockSize * 8
  if validBits ≥ totalBits then bitmap else setRange bitmap validBits (totalBits - validBits)

/-- bit `j` of `group` is a metadata bit: one the marking sets -/
def IsMetaBit (group j : Nat) : Prop := testBit (extMarkBlockGroupMetadata L group empty) j = true

instance (group j : Nat) : Decidable (IsMetaBit L group j) := inferInstanceAs (Decidable (_ = true))

/-- the block bitmap an uninitialised group stands for, as `ext_init_block_bitmap_locked` writes it -/
def impliedBlockBitmap (group : Nat) : Nat → BitVec 8 :=
  extBitmapSetPadding L (extMarkBlockGroupMetadata L group empty) (extGroupBlocksCount L group)

/-- the reserved inodes of group 0 and the padding, as `ext_init_inode_bitmap_locked` writes it -/
def impliedInodeBitmap (group : Nat) : Nat → BitVec 8 :=
  let inodeCount := extGroupInodesCount L group
  let bitmap := if group = 0 then setRange empty 0 (min (extGroupReservedInodeCount L group) inodeCount) else empty
  extBitmapSetPadding L bitmap inodeCount

end Marking

/-! ## The calls -/

section Calls

variable (fs : ExtFs)

def ExtFs.blockBitmapOf (group : Nat) : Nat → BitVec 8 := fs.disk (fs.layout.blockBitmap group)

def ExtFs.inodeBitmapOf (group : Nat) : Nat → BitVec 8 := fs.disk (fs.layout.inodeBitmap group)

/-- `ext_write_block` -/
def ExtFs.writeBlock (block : Nat) (data : Nat → BitVec 8) : ExtFs := { fs with disk := Function.update fs.disk block data }

def ExtFs.setGroup (group : Nat) (gd : GroupCounts) : ExtFs := { fs with groups := Function.update fs.groups group gd }

def extGroupsFreeBlocksSum : Nat := ((List.range fs.layout.groupCount).map fun g => (fs.groups g).freeBlocks).sum

def extGroupsFreeInodesSum : Nat := ((List.range fs.layout.groupCount).map fun g => (fs.groups g).freeInodes).sum

/-- `ext_zero_block` on `block, block + 1, ..., block + n - 1` -/
def zeroBlocks (block : Nat) : Nat → ExtFs
  | 0 => fs
  | n + 1 => (zeroBlocks block n).writeBlock (block + n) empty

/-- `ext_init_block_bitmap_locked`: a group marked `EXT4_BG_BLOCK_UNINIT` gets its bitmap written and the flag
cleared -/
def extInitBlockBitmapLocked (group : Nat) : ExtFs :=
  if group ≥ fs.layout.groupCount then fs
  else if !(fs.groups group).blockUninit then fs
  else
    let fs' := fs.writeBlock (fs.layout.blockBitmap group) (impliedBlockBitmap fs.layout group)
    fs'.setGroup group { fs.groups group with blockUninit := false }

/-- `ext_init_inode_bitmap_locked` -/
def extInitInodeBitmapLocked (group : Nat) : ExtFs :=
  if group ≥ fs.layout.groupCount then fs
  else if !(fs.groups group).inodeUninit then fs
  else
    let fs' := fs.writeBlock (fs.layout.inodeBitmap group) (impliedInodeBitmap fs.layout group)
    fs'.setGroup group { fs.groups group with inodeUninit := false, inodeZeroed := true }

/-- the loop `while (run < max_run && !ext_bitmap_test_bit(bitmap, bit + run)) run++` -/
def extendRun (bitmap : Nat → BitVec 8) (bit maxRun : Nat) (run : Nat) : Nat :=
  if run < maxRun ∧ testBit bitmap (bit + run) = false then extendRun bitmap bit maxRun (run + 1) else run
termination_by maxRun - run

/-- one pass of the loop of `ext_alloc_blocks_locked` over `group`: the file system after it, and the run it
allocated, if it found a clear bit -/
def extAllocBlocksPass (group want goal : Nat) : ExtFs × Option (Nat × Nat) :=
  let fs := extInitBlockBitmapLocked fs group
  let L := fs.layout
  let blockCount := extGroupBlocksCount L group
  let bitmap := extBitmapSetPadding L (extMarkBlockGroupMetadata L group (fs.blockBitmapOf group)) blockCount
  if countFree bitmap blockCount = 0 then (fs, none)
  else
    let groupFirst := extGroupFirstBlock L group
    let startBit := if goal ≥ groupFirst ∧ goal < groupFirst + blockCount then goal - groupFirst else 0
    match (List.range blockCount).find? (fun scan => !testBit bitmap ((startBit + scan) % blockCount)) with
    | none => (fs, none)
    | some scan =>
      let bit := (startBit + scan) % blockCount
      let run := extendRun bitmap bit (min (blockCount - bit) want) 1
      let outBlock := groupFirst + bit
      let fs := zeroBlocks fs outBlock run
      let bitmap := setRange bitmap bit run
      let fs := fs.writeBlock (L.blockBitmap group) bitmap
      let fs := fs.setGroup group { fs.groups group with freeBlocks := countFree bitmap blockCount }
      ({ fs with freeBlocksCount := extGroupsFreeBlocksSum fs }, some (outBlock, run))

/-- the passes of `ext_alloc_blocks_locked`, from `prefer_group` on, until one allocates -/
def extAllocBlocksLoop (preferGroup want goal : Nat) : ExtFs → List Nat → ExtFs × Option (Nat × Nat)
  | fs, [] => (fs, none)
  | fs, pass :: passes =>
    let r := extAllocBlocksPass fs ((preferGroup + pass) % fs.layout.groupCount) want goal
    match r.2 with
    | some run => (r.1, some run)
    | none => extAllocBlocksLoop preferGroup want goal r.1 passes

theorem extAllocBlocksLoop_nil (preferGroup want goal : Nat) (fs : ExtFs) :
    extAllocBlocksLoop preferGroup want goal fs [] = (fs, none) := rfl

theorem extAllocBlocksLoop_cons (preferGroup want goal : Nat) (fs : ExtFs) (pass : Nat) (passes : List Nat) :
    extAllocBlocksLoop preferGroup want goal fs (pass :: passes) =
      let r := extAllocBlocksPass fs ((preferGroup + pass) % fs.layout.groupCount) want goal
      match r.2 with
      | some run => (r.1, some run)
      | none => extAllocBlocksLoop preferGroup want goal r.1 passes := rfl

/-- `ext_alloc_blocks_locked`: the file system after the call, and the first block and length of the run, or the
error -/
def extAllocBlocksLocked (preferGroup want goal : Nat) : ExtFs × Except Int (Nat × Nat) :=
  if want = 0 then (fs, .error (-EINVAL))
  else
    let r := extAllocBlocksLoop preferGroup want goal fs (List.range fs.layout.groupCount)
    match r.2 with
    | some run => (r.1, .ok run)
    | none => (r.1, .error (-ENOSPC))

/-- `ext_alloc_block_locked`: one block, no goal -/
def extAllocBlockLocked (preferGroup : Nat) : ExtFs × Except Int Nat :=
  let r := extAllocBlocksLocked fs preferGroup 1 0
  (r.1, r.2.map Prod.fst)

/-- `ext_free_block_locked` -/
def extFreeBlockLocked (block : Nat) : ExtFs × Int :=
  let L := fs.layout
  if block < L.firstDataBlock ∨ block ≥ L.blocksCount then (fs, -EINVAL)
  else
    let group := (block - L.firstDataBlock) / L.blocksPerGroup
    let bit := (block - L.firstDataBlock) % L.blocksPerGroup
    let blockCount := extGroupBlocksCount L group
    let bitmap := clearBit (fs.blockBitmapOf group) bit
    let bitmap := extBitmapSetPadding L (extMarkBlockGroupMetadata L group bitmap) blockCount
    let fs := fs.writeBlock (L.blockBitmap group) bitmap
    let fs := fs.setGroup group { fs.groups group with freeBlocks := countFree bitmap blockCount }
    ({ fs with freeBlocksCount := extGroupsFreeBlocksSum fs }, 0)

/-- one pass of the loop of `ext_alloc_inode_locked` over `group` -/
def extAllocInodePass (mode group : Nat) : ExtFs × Option Nat :=
  let fs := extInitInodeBitmapLocked fs group
  let L := fs.layout
  let groupStart := extGroupInodeStart L group
  let inodeCount := extGroupInodesCount L group
  let bitmap := extBitmapSetPadding L (fs.inodeBitmapOf group) inodeCount
  if countFree bitmap inodeCount = 0 then (fs, none)
  else
    match (List.range inodeCount).find? (fun bit =>
        !decide (groupStart + bit < extFirstNonreservedInode L) && !testBit bitmap bit) with
    | none => (fs, none)
    | some bit =>
      let bitmap := setBit bitmap bit
      let fs := fs.writeBlock (L.inodeBitmap group) bitmap
      let gd := fs.groups group
      let gd := { gd with freeInodes := countFree bitmap inodeCount }
      let gd := if mode &&& S_IFMT = EXT2_S_IFDIR then { gd with usedDirs := gd.usedDirs + 1 } else gd
      let fs := fs.setGroup group gd
      ({ fs with freeInodesCount := extGroupsFreeInodesSum fs }, some (groupStart + bit))

def extAllocInodeLoop (mode : Nat) : ExtFs → List Nat → ExtFs × Option Nat
  | fs, [] => (fs, none)
  | fs, group :: groups =>
    let r := extAllocInodePass fs mode group
    match r.2 with
    | some ino => (r.1, some ino)
    | none => extAllocInodeLoop mode r.1 groups

theorem extAllocInodeLoop_nil (mode : Nat) (fs : ExtFs) : extAllocInodeLoop mode fs [] = (fs, none) := rfl

theorem extAllocInodeLoop_cons (mode : Nat) (fs : ExtFs) (group : Nat) (groups : List Nat) :
    extAllocInodeLoop mode fs (group :: groups) =
      let r := extAllocInodePass fs mode group
      match r.2 with
      | some ino => (r.1, some ino)
      | none => extAllocInodeLoop mode r.1 groups := rfl

/-- `ext_alloc_inode_locked` -/
def extAllocInodeLocked (mode : Nat) : ExtFs × Except Int Nat :=
  let r := extAllocInodeLoop mode fs (List.range fs.layout.groupCount)
  match r.2 with
  | some ino => (r.1, .ok ino)
  | none => (r.1, .error (-ENOSPC))

/-- `ext_free_inode_locked` -/
def extFreeInodeLocked (ino : Nat) (isDir : Bool) : ExtFs × Int :=
  let L := fs.layout
  if ino = 0 ∨ ino > L.inodesCount then (fs, -EINVAL)
  else
    let group := (ino - 1) / L.inodesPerGroup
    let bit := (ino - 1) % L.inodesPerGroup
    let usedDirs := (fs.groups group).usedDirs
    let inodeCount := extGroupInodesCount L group
    let bitmap := extBitmapSetPadding L (clearBit (fs.inodeBitmapOf group) bit) inodeCount
    let fs := fs.writeBlock (L.inodeBitmap group) bitmap
    let gd := { fs.groups group with freeInodes := countFree bitmap inodeCount }
    let gd := if isDir ∧ usedDirs ≠ 0 then { gd with usedDirs := usedDirs - 1 } else gd
    let fs := fs.setGroup group gd
    ({ fs with freeInodesCount := extGroupsFreeInodesSum fs }, 0)

end Calls

/-! ## What the markings set -/

section MarkingLemmas

variable (L : Layout)

theorem setsBits_extMarkBlockBitmapRange (group start count : Nat) :
    SetsBits (fun b => extMarkBlockBitmapRange L group b start count) := by
  unfold extMarkBlockBitmapRange
  exact SetsBits.ite _ setsBits_id (SetsBits.ite _ setsBits_id (setsBits_setRange _ _))

theorem setsBits_markOwner (group itableBlocks owner : Nat) : SetsBits (markOwner L group itableBlocks owner) := by
  have hblock := setsBits_optionSet (extGroupContainsBlock L group (L.blockBitmap owner))
  have hinode := setsBits_optionSet (extGroupContainsBlock L group (L.inodeBitmap owner))
  have htable := setsBits_extMarkBlockBitmapRange L group (L.inodeTable owner) itableBlocks
  have hall := (hblock.comp hinode).comp htable
  exact hall

theorem setsBits_extMarkBlockGroupMetadata (group : Nat) : SetsBits (extMarkBlockGroupMetadata L group) := by
  let first := extGroupFirstBlock L group
  have hsuper := ((setsBits_extMarkBlockBitmapRange L group first 1).comp
    (setsBits_extMarkBlockBitmapRange L group (first + 1) (extGdtBlocks L))).comp
    (setsBits_extMarkBlockBitmapRange L group (first + 1 + extGdtBlocks L) L.reservedGdtBlocks)
  have hcopies := SetsBits.ite (extGroupHasSuper L group) hsuper setsBits_id
  have howners := SetsBits.foldl _
    (setsBits_markOwner L group ((L.inodesPerGroup * L.inodeSize + L.blockSize - 1) / L.blockSize))
    (List.range L.groupCount)
  have hall := SetsBits.ite (group ≥ L.groupCount) setsBits_id (hcopies.comp howners)
  exact hall

theorem testBit_extMarkBlockGroupMetadata (group : Nat) (b : Nat → BitVec 8) (j : Nat) :
    testBit (extMarkBlockGroupMetadata L group b) j = (testBit b j || decide (IsMetaBit L group j)) := by
  rw [setsBits_extMarkBlockGroupMetadata L group b j]
  by_cases hm : IsMetaBit L group j
  · rw [decide_eq_true hm, hm]
  · rw [decide_eq_false hm, Bool.eq_false_iff.2 hm]

theorem testBit_extBitmapSetPadding (b : Nat → BitVec 8) (validBits j : Nat) :
    testBit (extBitmapSetPadding L b validBits) j =
      (testBit b j || decide (validBits ≤ j ∧ j < L.blockSize * 8)) := by
  unfold extBitmapSetPadding
  dsimp only
  split
  · have hout : ¬ (validBits ≤ j ∧ j < L.blockSize * 8) := by omega
    simp [hout]
  · rw [testBit_setRange, Bool.or_comm]
    have hiff : (validBits ≤ j ∧ j < validBits + (L.blockSize * 8 - validBits)) ↔
        (validBits ≤ j ∧ j < L.blockSize * 8) := by omega
    simp only [hiff]

/-- the marking of a group sets the bit of every group's block and inode bitmap that lies in it -/
theorem isMetaBit_of_contains {group owner bit : Nat} (howner : owner < L.groupCount)
    (h : extGroupContainsBlock L group (L.blockBitmap owner) = some bit ∨
      extGroupContainsBlock L group (L.inodeBitmap owner) = some bit) : IsMetaBit L group bit := by
  have hg : group < L.groupCount := by
    unfold extGroupContainsBlock at h
    by_contra hge
    simp [Nat.le_of_not_lt hge] at h
  unfold IsMetaBit extMarkBlockGroupMetadata
  rw [if_neg (by omega)]
  dsimp only
  refine SetsBits.foldl_of_mem _ (setsBits_markOwner L group _) ?_ _ (List.mem_range.2 howner) _
  intro b
  unfold markOwner
  dsimp only
  apply (setsBits_extMarkBlockBitmapRange L _ _ _).mono
  rcases h with h | h
  · rw [h]
    apply (setsBits_optionSet _).mono
    simp
  · rw [h]
    simp

end MarkingLemmas

/-! ## What each write changes -/

section Frames

variable (fs : ExtFs)

@[simp] theorem writeBlock_layout (block : Nat) (data : Nat → BitVec 8) : (fs.writeBlock block data).layout = fs.layout :=
  rfl
@[simp] theorem writeBlock_groups (block : Nat) (data : Nat → BitVec 8) : (fs.writeBlock block data).groups = fs.groups :=
  rfl
@[simp] theorem writeBlock_freeBlocksCount (block : Nat) (data : Nat → BitVec 8) :
    (fs.writeBlock block data).freeBlocksCount = fs.freeBlocksCount := rfl
@[simp] theorem writeBlock_freeInodesCount (block : Nat) (data : Nat → BitVec 8) :
    (fs.writeBlock block data).freeInodesCount = fs.freeInodesCount := rfl
@[simp] theorem writeBlock_disk (block : Nat) (data : Nat → BitVec 8) :
    (fs.writeBlock block data).disk = Function.update fs.disk block data := rfl

@[simp] theorem setGroup_layout (g : Nat) (gd : GroupCounts) : (fs.setGroup g gd).layout = fs.layout := rfl
@[simp] theorem setGroup_disk (g : Nat) (gd : GroupCounts) : (fs.setGroup g gd).disk = fs.disk := rfl
@[simp] theorem setGroup_groups (g : Nat) (gd : GroupCounts) :
    (fs.setGroup g gd).groups = Function.update fs.groups g gd := rfl
@[simp] theorem setGroup_freeBlocksCount (g : Nat) (gd : GroupCounts) :
    (fs.setGroup g gd).freeBlocksCount = fs.freeBlocksCount := rfl
@[simp] theorem setGroup_freeInodesCount (g : Nat) (gd : GroupCounts) :
    (fs.setGroup g gd).freeInodesCount = fs.freeInodesCount := rfl

theorem zeroBlocks_succ (block n : Nat) :
    zeroBlocks fs block (n + 1) = (zeroBlocks fs block n).writeBlock (block + n) empty := rfl

@[simp] theorem zeroBlocks_layout (block n : Nat) : (zeroBlocks fs block n).layout = fs.layout := by
  induction n with
  | zero => rfl
  | succ n ih => rw [zeroBlocks_succ, writeBlock_layout, ih]

@[simp] theorem zeroBlocks_groups (block n : Nat) : (zeroBlocks fs block n).groups = fs.groups := by
  induction n with
  | zero => rfl
  | succ n ih => rw [zeroBlocks_succ, writeBlock_groups, ih]

@[simp] theorem zeroBlocks_freeBlocksCount (block n : Nat) :
    (zeroBlocks fs block n).freeBlocksCount = fs.freeBlocksCount := by
  induction n with
  | zero => rfl
  | succ n ih => rw [zeroBlocks_succ, writeBlock_freeBlocksCount, ih]

@[simp] theorem zeroBlocks_freeInodesCount (block n : Nat) :
    (zeroBlocks fs block n).freeInodesCount = fs.freeInodesCount := by
  induction n with
  | zero => rfl
  | succ n ih => rw [zeroBlocks_succ, writeBlock_freeInodesCount, ih]

/-- zeroing a run changes the run's blocks and nothing else -/
theorem zeroBlocks_disk (block n b : Nat) :
    (zeroBlocks fs block n).disk b = if block ≤ b ∧ b < block + n then empty else fs.disk b := by
  induction n with
  | zero => rw [if_neg (by omega)]; rfl
  | succ n ih =>
    rw [zeroBlocks_succ, writeBlock_disk]
    by_cases hb : b = block + n
    · subst hb
      rw [Function.update_self, if_pos (by omega)]
    · rw [Function.update_of_ne hb, ih]
      by_cases hin : block ≤ b ∧ b < block + n
      · rw [if_pos hin, if_pos (by omega)]
      · rw [if_neg hin, if_neg (by omega)]

theorem zeroBlocks_disk_of_ne {block n b : Nat} (hb : ∀ k < n, block + k ≠ b) :
    (zeroBlocks fs block n).disk b = fs.disk b := by
  rw [zeroBlocks_disk, if_neg]
  rintro ⟨hlo, hhi⟩
  exact hb (b - block) (by omega) (by omega)

/-- the free counts summed over the groups read the counts of the groups only -/
theorem extGroupsFreeBlocksSum_congr {fs' : ExtFs} (hgc : fs'.layout.groupCount = fs.layout.groupCount)
    (h : ∀ g < fs.layout.groupCount, (fs'.groups g).freeBlocks = (fs.groups g).freeBlocks) :
    extGroupsFreeBlocksSum fs' = extGroupsFreeBlocksSum fs := by
  unfold extGroupsFreeBlocksSum
  rw [hgc]
  congr 1
  exact List.map_congr_left fun g hg => h g (List.mem_range.1 hg)

theorem extGroupsFreeInodesSum_congr {fs' : ExtFs} (hgc : fs'.layout.groupCount = fs.layout.groupCount)
    (h : ∀ g < fs.layout.groupCount, (fs'.groups g).freeInodes = (fs.groups g).freeInodes) :
    extGroupsFreeInodesSum fs' = extGroupsFreeInodesSum fs := by
  unfold extGroupsFreeInodesSum
  rw [hgc]
  congr 1
  exact List.map_congr_left fun g hg => h g (List.mem_range.1 hg)

end Frames

/-! ## The invariant -/

/-- a layout as mkfs makes it: a group's bits fit in a block, every block and inode lies in a group, and the groups'
bitmaps are different blocks -/
structure LayoutOk (L : Layout) : Prop where
  blocksPerGroup_pos : 0 < L.blocksPerGroup
  inodesPerGroup_pos : 0 < L.inodesPerGroup
  blocksPerGroup_le : L.blocksPerGroup ≤ L.blockSize * 8
  inodesPerGroup_le : L.inodesPerGroup ≤ L.blockSize * 8
  blocks_in_groups : L.blocksCount ≤ L.firstDataBlock + L.groupCount * L.blocksPerGroup
  inodes_in_groups : L.inodesCount ≤ L.groupCount * L.inodesPerGroup
  block_ne_inode : ∀ g < L.groupCount, ∀ g' < L.groupCount, L.blockBitmap g ≠ L.inodeBitmap g'
  blockBitmap_inj : ∀ g < L.groupCount, ∀ g' < L.groupCount, L.blockBitmap g = L.blockBitmap g' → g = g'
  inodeBitmap_inj : ∀ g < L.groupCount, ∀ g' < L.groupCount, L.inodeBitmap g = L.inodeBitmap g' → g = g'

/-- what the allocators keep: each descriptor's counts are the clear bits of its bitmaps, the metadata and padding
bits are set, an uninitialised group's bitmap is the one it stands for, group 0's inode bitmap is initialised (it
holds the root directory), and the superblock's counts are the sums -/
structure Consistent (fs : ExtFs) : Prop where
  layout : LayoutOk fs.layout
  freeBlocks : ∀ g < fs.layout.groupCount,
    (fs.groups g).freeBlocks = countFree (fs.blockBitmapOf g) (extGroupBlocksCount fs.layout g)
  freeInodes : ∀ g < fs.layout.groupCount,
    (fs.groups g).freeInodes = countFree (fs.inodeBitmapOf g) (extGroupInodesCount fs.layout g)
  metaBits : ∀ g < fs.layout.groupCount, ∀ j, IsMetaBit fs.layout g j → testBit (fs.blockBitmapOf g) j = true
  blockPad : ∀ g < fs.layout.groupCount, ∀ j, extGroupBlocksCount fs.layout g ≤ j → j < fs.layout.blockSize * 8 →
    testBit (fs.blockBitmapOf g) j = true
  inodePad : ∀ g < fs.layout.groupCount, ∀ j, extGroupInodesCount fs.layout g ≤ j → j < fs.layout.blockSize * 8 →
    testBit (fs.inodeBitmapOf g) j = true
  blockUninit : ∀ g < fs.layout.groupCount, (fs.groups g).blockUninit = true → ∀ j < fs.layout.blockSize * 8,
    testBit (fs.blockBitmapOf g) j = testBit (impliedBlockBitmap fs.layout g) j
  inodeUninit : ∀ g < fs.layout.groupCount, (fs.groups g).inodeUninit = true → ∀ j < fs.layout.blockSize * 8,
    testBit (fs.inodeBitmapOf g) j = testBit (impliedInodeBitmap fs.layout g) j
  group0 : 0 < fs.layout.groupCount → (fs.groups 0).inodeUninit = false
  sumBlocks : fs.freeBlocksCount = extGroupsFreeBlocksSum fs
  sumInodes : fs.freeInodesCount = extGroupsFreeInodesSum fs

section Invariant

variable {fs : ExtFs}

theorem extGroupBlocksCount_le (L : Layout) (g : Nat) : extGroupBlocksCount L g ≤ L.blocksPerGroup := by
  unfold extGroupBlocksCount
  dsimp only
  split <;> omega

theorem extGroupInodesCount_le (L : Layout) (g : Nat) : extGroupInodesCount L g ≤ L.inodesPerGroup := by
  unfold extGroupInodesCount
  dsimp only
  split <;> omega

/-- writing a block bitmap with the metadata and padding bits set, and taking the descriptor's count from it, keeps
the invariant -/
theorem Consistent.commitBlockBitmap (hc : Consistent fs) {g : Nat} (hg : g < fs.layout.groupCount)
    (B : Nat → BitVec 8) (gd : GroupCounts) (hmeta : ∀ j, IsMetaBit fs.layout g j → testBit B j = true)
    (hpad : ∀ j, extGroupBlocksCount fs.layout g ≤ j → j < fs.layout.blockSize * 8 → testBit B j = true)
    (hinit : gd.blockUninit = true → ∀ j < fs.layout.blockSize * 8,
      testBit B j = testBit (impliedBlockBitmap fs.layout g) j)
    (hfree : gd.freeBlocks = countFree B (extGroupBlocksCount fs.layout g))
    (hinodes : gd.freeInodes = (fs.groups g).freeInodes) (hiu : gd.inodeUninit = (fs.groups g).inodeUninit) :
    Consistent
      { (fs.writeBlock (fs.layout.blockBitmap g) B).setGroup g gd with
        freeBlocksCount := extGroupsFreeBlocksSum ((fs.writeBlock (fs.layout.blockBitmap g) B).setGroup g gd) } := by
  have hL := hc.layout
  have hblock : ∀ g' < fs.layout.groupCount, g' ≠ g →
      Function.update fs.disk (fs.layout.blockBitmap g) B (fs.layout.blockBitmap g') = fs.blockBitmapOf g' :=
    fun g' hg' hne => Function.update_of_ne (fun h => hne (hL.blockBitmap_inj g' hg' g hg h)) _ _
  have hinode : ∀ g' < fs.layout.groupCount,
      Function.update fs.disk (fs.layout.blockBitmap g) B (fs.layout.inodeBitmap g') = fs.inodeBitmapOf g' :=
    fun g' hg' => Function.update_of_ne (fun h => hL.block_ne_inode g hg g' hg' h.symm) _ _
  constructor
  · exact hL
  all_goals simp only [ExtFs.blockBitmapOf, ExtFs.inodeBitmapOf, setGroup_layout, writeBlock_layout, setGroup_disk,
    writeBlock_disk, setGroup_groups, writeBlock_groups]
  · intro g' hg'
    by_cases hne : g' = g
    · subst hne
      simp [hfree]
    · rw [Function.update_of_ne hne, hblock g' hg' hne]
      exact hc.freeBlocks g' hg'
  · intro g' hg'
    rw [hinode g' hg']
    by_cases hne : g' = g
    · subst hne
      rw [Function.update_self, hinodes]
      exact hc.freeInodes g' hg'
    · rw [Function.update_of_ne hne]
      exact hc.freeInodes g' hg'
  · intro g' hg' j hj
    by_cases hne : g' = g
    · subst hne
      rw [Function.update_self]
      exact hmeta j hj
    · rw [hblock g' hg' hne]
      exact hc.metaBits g' hg' j hj
  · intro g' hg' j hlo hhi
    by_cases hne : g' = g
    · subst hne
      rw [Function.update_self]
      exact hpad j hlo hhi
    · rw [hblock g' hg' hne]
      exact hc.blockPad g' hg' j hlo hhi
  · intro g' hg' j hlo hhi
    rw [hinode g' hg']
    exact hc.inodePad g' hg' j hlo hhi
  · intro g' hg' hu j hj
    by_cases hne : g' = g
    · subst hne
      rw [Function.update_self] at hu ⊢
      exact hinit hu j hj
    · rw [Function.update_of_ne hne] at hu
      rw [hblock g' hg' hne]
      exact hc.blockUninit g' hg' hu j hj
  · intro g' hg' hu j hj
    rw [hinode g' hg']
    by_cases hne : g' = g
    · subst hne
      rw [Function.update_self, hiu] at hu
      exact hc.inodeUninit g' hg' hu j hj
    · rw [Function.update_of_ne hne] at hu
      exact hc.inodeUninit g' hg' hu j hj
  · intro h0
    by_cases hne : g = 0
    · subst hne
      rw [Function.update_self, hiu]
      exact hc.group0 h0
    · rw [Function.update_of_ne (Ne.symm hne)]
      exact hc.group0 h0
  · rfl
  · rw [setGroup_freeInodesCount, writeBlock_freeInodesCount, hc.sumInodes]
    refine Eq.symm (extGroupsFreeInodesSum_congr fs rfl fun g' _ => ?_)
    by_cases hne : g' = g
    · subst hne
      simp [hinodes]
    · simp [Function.update_of_ne hne]

/-- writing an inode bitmap with the padding bits set, and taking the descriptor's inode count from it, keeps the
invariant, whatever the call does to the count of directories -/
theorem Consistent.commitInodeBitmap (hc : Consistent fs) {g : Nat} (hg : g < fs.layout.groupCount)
    (B : Nat → BitVec 8) (gd : GroupCounts)
    (hpad : ∀ j, extGroupInodesCount fs.layout g ≤ j → j < fs.layout.blockSize * 8 → testBit B j = true)
    (hinit : gd.inodeUninit = true → ∀ j < fs.layout.blockSize * 8,
      testBit B j = testBit (impliedInodeBitmap fs.layout g) j) (hg0 : gd.inodeUninit = true → g ≠ 0)
    (hfree : gd.freeInodes = countFree B (extGroupInodesCount fs.layout g))
    (hblocks : gd.freeBlocks = (fs.groups g).freeBlocks) (hbu : gd.blockUninit = (fs.groups g).blockUninit) :
    Consistent
      { (fs.writeBlock (fs.layout.inodeBitmap g) B).setGroup g gd with
        freeInodesCount := extGroupsFreeInodesSum ((fs.writeBlock (fs.layout.inodeBitmap g) B).setGroup g gd) } := by
  have hL := hc.layout
  have hblock : ∀ g' < fs.layout.groupCount,
      Function.update fs.disk (fs.layout.inodeBitmap g) B (fs.layout.blockBitmap g') = fs.blockBitmapOf g' :=
    fun g' hg' => Function.update_of_ne (hL.block_ne_inode g' hg' g hg) _ _
  have hinode : ∀ g' < fs.layout.groupCount, g' ≠ g →
      Function.update fs.disk (fs.layout.inodeBitmap g) B (fs.layout.inodeBitmap g') = fs.inodeBitmapOf g' :=
    fun g' hg' hne => Function.update_of_ne (fun h => hne (hL.inodeBitmap_inj g' hg' g hg h)) _ _
  constructor
  · exact hL
  all_goals simp only [ExtFs.blockBitmapOf, ExtFs.inodeBitmapOf, setGroup_layout, writeBlock_layout, setGroup_disk,
    writeBlock_disk, setGroup_groups, writeBlock_groups]
  · intro g' hg'
    rw [hblock g' hg']
    by_cases hne : g' = g
    · subst hne
      rw [Function.update_self, hblocks]
      exact hc.freeBlocks g' hg'
    · rw [Function.update_of_ne hne]
      exact hc.freeBlocks g' hg'
  · intro g' hg'
    by_cases hne : g' = g
    · subst hne
      simp [hfree]
    · rw [Function.update_of_ne hne, hinode g' hg' hne]
      exact hc.freeInodes g' hg'
  · intro g' hg' j hj
    rw [hblock g' hg']
    exact hc.metaBits g' hg' j hj
  · intro g' hg' j hlo hhi
    rw [hblock g' hg']
    exact hc.blockPad g' hg' j hlo hhi
  · intro g' hg' j hlo hhi
    by_cases hne : g' = g
    · subst hne
      rw [Function.update_self]
      exact hpad j hlo hhi
    · rw [hinode g' hg' hne]
      exact hc.inodePad g' hg' j hlo hhi
  · intro g' hg' hu j hj
    rw [hblock g' hg']
    by_cases hne : g' = g
    · subst hne
      rw [Function.update_self, hbu] at hu
      exact hc.blockUninit g' hg' hu j hj
    · rw [Function.update_of_ne hne] at hu
      exact hc.blockUninit g' hg' hu j hj
  · intro g' hg' hu j hj
    by_cases hne : g' = g
    · subst hne
      rw [Function.update_self] at hu ⊢
      exact hinit hu j hj
    · rw [Function.update_of_ne hne] at hu
      rw [hinode g' hg' hne]
      exact hc.inodeUninit g' hg' hu j hj
  · intro h0
    by_cases hne : g = 0
    · subst hne
      rw [Function.update_self]
      cases hu : gd.inodeUninit
      · rfl
      · exact absurd rfl (hg0 hu)
    · rw [Function.update_of_ne (Ne.symm hne)]
      exact hc.group0 h0
  · rw [setGroup_freeBlocksCount, writeBlock_freeBlocksCount, hc.sumBlocks]
    refine Eq.symm (extGroupsFreeBlocksSum_congr fs rfl fun g' _ => ?_)
    by_cases hne : g' = g
    · subst hne
      simp [hblocks]
    · simp [Function.update_of_ne hne]
  · rfl

/-- a state with the same layout, descriptors and counts, and the same bitmaps, keeps the invariant -/
theorem Consistent.of_bitmaps {fs' : ExtFs} (hc : Consistent fs) (hlayout : fs'.layout = fs.layout)
    (hgroups : fs'.groups = fs.groups) (hblocks : fs'.freeBlocksCount = fs.freeBlocksCount)
    (hinodes : fs'.freeInodesCount = fs.freeInodesCount)
    (hbb : ∀ g < fs.layout.groupCount, fs'.blockBitmapOf g = fs.blockBitmapOf g)
    (hib : ∀ g < fs.layout.groupCount, fs'.inodeBitmapOf g = fs.inodeBitmapOf g) : Consistent fs' := by
  have hsb : extGroupsFreeBlocksSum fs' = extGroupsFreeBlocksSum fs := by
    unfold extGroupsFreeBlocksSum
    rw [hlayout, hgroups]
  have hsi : extGroupsFreeInodesSum fs' = extGroupsFreeInodesSum fs := by
    unfold extGroupsFreeInodesSum
    rw [hlayout, hgroups]
  refine ⟨hlayout ▸ hc.layout, ?_, ?_, ?_, ?_, ?_, ?_, ?_, ?_, ?_, ?_⟩ <;> (try rw [hlayout])
  · intro g hg
    rw [hgroups, hbb g hg]
    exact hc.freeBlocks g hg
  · intro g hg
    rw [hgroups, hib g hg]
    exact hc.freeInodes g hg
  · intro g hg j hj
    rw [hbb g hg]
    exact hc.metaBits g hg j hj
  · intro g hg j hlo hhi
    rw [hbb g hg]
    exact hc.blockPad g hg j hlo hhi
  · intro g hg j hlo hhi
    rw [hib g hg]
    exact hc.inodePad g hg j hlo hhi
  · intro g hg hu j hj
    rw [hgroups] at hu
    rw [hbb g hg]
    exact hc.blockUninit g hg hu j hj
  · intro g hg hu j hj
    rw [hgroups] at hu
    rw [hib g hg]
    exact hc.inodeUninit g hg hu j hj
  · rw [hgroups]
    exact hc.group0
  · rw [hblocks, hsb]
    exact hc.sumBlocks
  · rw [hinodes, hsi]
    exact hc.sumInodes

/-- zeroing blocks that are no group's bitmap keeps the invariant -/
theorem Consistent.zeroBlocks (hc : Consistent fs) (block n : Nat)
    (hz : ∀ k < n, ∀ g < fs.layout.groupCount, block + k ≠ fs.layout.blockBitmap g ∧ block + k ≠ fs.layout.inodeBitmap g) :
    Consistent (zeroBlocks fs block n) := by
  refine hc.of_bitmaps (zeroBlocks_layout fs block n) (zeroBlocks_groups fs block n)
    (zeroBlocks_freeBlocksCount fs block n) (zeroBlocks_freeInodesCount fs block n) (fun g hg => ?_) (fun g hg => ?_)
  · simp only [ExtFs.blockBitmapOf, zeroBlocks_layout]
    exact zeroBlocks_disk_of_ne fs fun k hk => (hz k hk g hg).1
  · simp only [ExtFs.inodeBitmapOf, zeroBlocks_layout]
    exact zeroBlocks_disk_of_ne fs fun k hk => (hz k hk g hg).2

theorem testBit_impliedBlockBitmap (L : Layout) (g j : Nat) :
    testBit (impliedBlockBitmap L g) j =
      (decide (IsMetaBit L g j) || decide (extGroupBlocksCount L g ≤ j ∧ j < L.blockSize * 8)) := by
  rw [impliedBlockBitmap, testBit_extBitmapSetPadding, testBit_extMarkBlockGroupMetadata, testBit_empty,
    Bool.false_or]

@[simp] theorem extInitBlockBitmapLocked_layout (g : Nat) : (extInitBlockBitmapLocked fs g).layout = fs.layout := by
  unfold extInitBlockBitmapLocked
  split_ifs <;> rfl

/-- the lazy initialisation writes out the bitmap the group stands for, which changes no bit of the block and no
count -/
theorem Consistent.extInitBlockBitmapLocked (hc : Consistent fs) (g : Nat) :
    Consistent (extInitBlockBitmapLocked fs g) := by
  unfold Naos.Ext.extInitBlockBitmapLocked
  split_ifs with hg hu
  · exact hc
  · exact hc
  replace hu : (fs.groups g).blockUninit = true := by simpa using hu
  have hg' : g < fs.layout.groupCount := by omega
  have hbc := (extGroupBlocksCount_le fs.layout g).trans hc.layout.blocksPerGroup_le
  have hcount : countFree (fs.blockBitmapOf g) (extGroupBlocksCount fs.layout g) =
      countFree (impliedBlockBitmap fs.layout g) (extGroupBlocksCount fs.layout g) :=
    countFree_congr fun j hj => hc.blockUninit g hg' hu j (by omega)
  have h := hc.commitBlockBitmap hg' (impliedBlockBitmap fs.layout g) { fs.groups g with blockUninit := false }
    (fun j hj => by simp [testBit_impliedBlockBitmap, hj])
    (fun j hlo hhi => by simp [testBit_impliedBlockBitmap, hlo, hhi])
    (fun h => absurd h Bool.false_ne_true) (by rw [← hcount]; exact hc.freeBlocks g hg') rfl rfl
  have hsum : extGroupsFreeBlocksSum ((fs.writeBlock (fs.layout.blockBitmap g) (impliedBlockBitmap fs.layout g)).setGroup
      g { fs.groups g with blockUninit := false }) = fs.freeBlocksCount := by
    rw [hc.sumBlocks]
    refine extGroupsFreeBlocksSum_congr fs rfl fun g' _ => ?_
    by_cases hne : g' = g
    · subst hne
      simp
    · simp [Function.update_of_ne hne]
  rw [hsum] at h
  exact h

theorem testBit_impliedInodeBitmap (L : Layout) (g j : Nat) :
    testBit (impliedInodeBitmap L g) j =
      (decide (g = 0 ∧ j < min (extGroupReservedInodeCount L g) (extGroupInodesCount L g)) ||
        decide (extGroupInodesCount L g ≤ j ∧ j < L.blockSize * 8)) := by
  rw [impliedInodeBitmap, testBit_extBitmapSetPadding]
  by_cases hg : g = 0
  · simp [hg, testBit_setRange]
  · simp [hg]

/-- a group 0 whose inodes are all reserved stands for a bitmap with every bit of its block set -/
theorem testBit_impliedInodeBitmap_reserved {L : Layout}
    (hres : extGroupInodesCount L 0 ≤ extGroupReservedInodeCount L 0) {j : Nat} (hj : j < L.blockSize * 8) :
    testBit (impliedInodeBitmap L 0) j = true := by
  rw [testBit_impliedInodeBitmap]
  by_cases hin : j < extGroupInodesCount L 0
  · simp [hin, Nat.lt_of_lt_of_le hin hres]
  · simp [hin, hj]
    omega

theorem countFree_impliedInodeBitmap_reserved {L : Layout}
    (hres : extGroupInodesCount L 0 ≤ extGroupReservedInodeCount L 0) {n : Nat} (hn : n ≤ L.blockSize * 8) :
    countFree (impliedInodeBitmap L 0) n = 0 := by
  have hcongr : countFree (impliedInodeBitmap L 0) n = countFree full n := countFree_congr fun i hi => by
    rw [testBit_full, testBit_impliedInodeBitmap_reserved hres (by omega)]
  rw [hcongr, countFree_full]

/-- the padding lies past the bits a count reads -/
theorem countFree_extBitmapSetPadding {L : Layout} (b : Nat → BitVec 8) {validBits n : Nat} (hn : n ≤ validBits) :
    countFree (extBitmapSetPadding L b validBits) n = countFree b n :=
  countFree_congr fun i hi => by
    rw [testBit_extBitmapSetPadding]
    simp only [Bool.or_eq_left_iff_imp, decide_eq_true_eq, and_imp]
    omega

@[simp] theorem extInitInodeBitmapLocked_layout (g : Nat) : (extInitInodeBitmapLocked fs g).layout = fs.layout := by
  unfold extInitInodeBitmapLocked
  split_ifs <;> rfl

theorem Consistent.extInitInodeBitmapLocked (hc : Consistent fs) (g : Nat) :
    Consistent (extInitInodeBitmapLocked fs g) := by
  unfold Naos.Ext.extInitInodeBitmapLocked
  split_ifs with hg hu
  · exact hc
  · exact hc
  replace hu : (fs.groups g).inodeUninit = true := by simpa using hu
  have hg' : g < fs.layout.groupCount := by omega
  have hic := (extGroupInodesCount_le fs.layout g).trans hc.layout.inodesPerGroup_le
  have hcount : countFree (fs.inodeBitmapOf g) (extGroupInodesCount fs.layout g) =
      countFree (impliedInodeBitmap fs.layout g) (extGroupInodesCount fs.layout g) :=
    countFree_congr fun j hj => hc.inodeUninit g hg' hu j (by omega)
  have h := hc.commitInodeBitmap hg' (impliedInodeBitmap fs.layout g)
    { fs.groups g with inodeUninit := false, inodeZeroed := true }
    (fun j hlo hhi => by simp [testBit_impliedInodeBitmap, hlo, hhi])
    (fun h => absurd h Bool.false_ne_true) (fun h => absurd h Bool.false_ne_true)
    (by rw [← hcount]; exact hc.freeInodes g hg') rfl rfl
  have hsum : extGroupsFreeInodesSum ((fs.writeBlock (fs.layout.inodeBitmap g) (impliedInodeBitmap fs.layout g)).setGroup
      g { fs.groups g with inodeUninit := false, inodeZeroed := true }) = fs.freeInodesCount := by
    rw [hc.sumInodes]
    refine extGroupsFreeInodesSum_congr fs rfl fun g' _ => ?_
    by_cases hne : g' = g
    · subst hne
      simp
    · simp [Function.update_of_ne hne]
  rw [hsum] at h
  exact h

end Invariant

/-! ## Bits the calls keep -/

/-- two states with the same layout whose bitmaps agree on every bit of their blocks -/
structure BitsAgree (fs fs' : ExtFs) : Prop where
  layout : fs'.layout = fs.layout
  blockBits : ∀ g < fs.layout.groupCount, ∀ j < fs.layout.blockSize * 8,
    testBit (fs'.blockBitmapOf g) j = testBit (fs.blockBitmapOf g) j
  inodeBits : ∀ g < fs.layout.groupCount, ∀ j < fs.layout.blockSize * 8,
    testBit (fs'.inodeBitmapOf g) j = testBit (fs.inodeBitmapOf g) j

section Agree

variable {fs : ExtFs}

theorem BitsAgree.refl (fs : ExtFs) : BitsAgree fs fs := ⟨rfl, fun _ _ _ _ => rfl, fun _ _ _ _ => rfl⟩

theorem BitsAgree.trans {fs' fs'' : ExtFs} (h₁ : BitsAgree fs fs') (h₂ : BitsAgree fs' fs'') : BitsAgree fs fs'' := by
  refine ⟨h₂.layout.trans h₁.layout, fun g hg j hj => ?_, fun g hg j hj => ?_⟩
  · rw [h₂.blockBits g (h₁.layout ▸ hg) j (h₁.layout ▸ hj), h₁.blockBits g hg j hj]
  · rw [h₂.inodeBits g (h₁.layout ▸ hg) j (h₁.layout ▸ hj), h₁.inodeBits g hg j hj]

/-- the lazy initialisation changes no bit of any bitmap block -/
theorem extInitBlockBitmapLocked_agree (hc : Consistent fs) (g : Nat) :
    BitsAgree fs (extInitBlockBitmapLocked fs g) := by
  unfold extInitBlockBitmapLocked
  split_ifs with hg hu
  · exact BitsAgree.refl fs
  · exact BitsAgree.refl fs
  replace hu : (fs.groups g).blockUninit = true := by simpa using hu
  have hg' : g < fs.layout.groupCount := by omega
  refine ⟨rfl, fun g' hg'' j hj => ?_, fun g' hg'' j hj => ?_⟩ <;>
    simp only [ExtFs.blockBitmapOf, ExtFs.inodeBitmapOf, setGroup_layout, writeBlock_layout, setGroup_disk,
      writeBlock_disk]
  · by_cases hne : g' = g
    · subst hne
      rw [Function.update_self]
      exact (hc.blockUninit g' hg' hu j hj).symm
    · rw [Function.update_of_ne fun h => hne (hc.layout.blockBitmap_inj g' hg'' g hg' h)]
  · rw [Function.update_of_ne fun h => hc.layout.block_ne_inode g hg' g' hg'' h.symm]

theorem extInitInodeBitmapLocked_agree (hc : Consistent fs) (g : Nat) :
    BitsAgree fs (extInitInodeBitmapLocked fs g) := by
  unfold extInitInodeBitmapLocked
  split_ifs with hg hu
  · exact BitsAgree.refl fs
  · exact BitsAgree.refl fs
  replace hu : (fs.groups g).inodeUninit = true := by simpa using hu
  have hg' : g < fs.layout.groupCount := by omega
  refine ⟨rfl, fun g' hg'' j hj => ?_, fun g' hg'' j hj => ?_⟩ <;>
    simp only [ExtFs.blockBitmapOf, ExtFs.inodeBitmapOf, setGroup_layout, writeBlock_layout, setGroup_disk,
      writeBlock_disk]
  · rw [Function.update_of_ne (hc.layout.block_ne_inode g' hg'' g hg')]
  · by_cases hne : g' = g
    · subst hne
      rw [Function.update_self]
      exact (hc.inodeUninit g' hg' hu j hj).symm
    · rw [Function.update_of_ne fun h => hne (hc.layout.inodeBitmap_inj g' hg'' g hg' h)]

theorem extInitBlockBitmapLocked_blockUninit (hg : g < fs.layout.groupCount) :
    ((extInitBlockBitmapLocked fs g).groups g).blockUninit = false := by
  unfold extInitBlockBitmapLocked
  split_ifs with hge hu
  · omega
  · simpa using hu
  · simp

theorem extInitInodeBitmapLocked_inodeUninit (hg : g < fs.layout.groupCount) :
    ((extInitInodeBitmapLocked fs g).groups g).inodeUninit = false := by
  unfold extInitInodeBitmapLocked
  split_ifs with hge hu
  · omega
  · simpa using hu
  · simp

end Agree

/-! ## The block allocator -/

section AllocBlocks

theorem extendRun_ge (bitmap : Nat → BitVec 8) (bit maxRun run : Nat) : run ≤ extendRun bitmap bit maxRun run := by
  fun_induction extendRun bitmap bit maxRun run with
  | case1 run _ ih => omega
  | case2 run _ => exact le_rfl

theorem extendRun_le (bitmap : Nat → BitVec 8) (bit maxRun run : Nat) (h : run ≤ maxRun) :
    extendRun bitmap bit maxRun run ≤ maxRun := by
  fun_induction extendRun bitmap bit maxRun run with
  | case1 run hc ih => exact ih (by omega)
  | case2 run _ => exact h

/-- the bits the run grows over are clear -/
theorem extendRun_clear (bitmap : Nat → BitVec 8) (bit maxRun run : Nat) :
    ∀ k, run ≤ k → k < extendRun bitmap bit maxRun run → testBit bitmap (bit + k) = false := by
  fun_induction extendRun bitmap bit maxRun run with
  | case1 run hc ih =>
    intro k hk hlt
    by_cases hkr : k = run
    · subst hkr
      exact hc.2
    · exact ih k (by omega) hlt
  | case2 run _ =>
    intro k hk hlt
    omega

/-- the bitmap a pass reads: the group's bitmap with its metadata and padding bits set -/
def passBitmap (fs : ExtFs) (g : Nat) : Nat → BitVec 8 :=
  extBitmapSetPadding fs.layout (extMarkBlockGroupMetadata fs.layout g (fs.blockBitmapOf g))
    (extGroupBlocksCount fs.layout g)

/-- what a pass that takes the run `[bit, bit + run)` of the group leaves -/
def commitRun (fs : ExtFs) (g bit run : Nat) : ExtFs :=
  let B := setRange (passBitmap fs g) bit run
  let fs₁ := (zeroBlocks fs (extGroupFirstBlock fs.layout g + bit) run).writeBlock (fs.layout.blockBitmap g) B
  let fs₂ := fs₁.setGroup g { fs₁.groups g with freeBlocks := countFree B (extGroupBlocksCount fs.layout g) }
  { fs₂ with freeBlocksCount := extGroupsFreeBlocksSum fs₂ }

theorem testBit_passBitmap (fs : ExtFs) (g j : Nat) :
    testBit (passBitmap fs g) j = (testBit (fs.blockBitmapOf g) j || decide (IsMetaBit fs.layout g j) ||
      decide (extGroupBlocksCount fs.layout g ≤ j ∧ j < fs.layout.blockSize * 8)) := by
  rw [passBitmap, testBit_extBitmapSetPadding, testBit_extMarkBlockGroupMetadata]

theorem extGroupBlocksCount_eq_zero {L : Layout} (hL : LayoutOk L) {g : Nat} (hg : L.groupCount ≤ g) :
    extGroupBlocksCount L g = 0 := by
  unfold extGroupBlocksCount extGroupFirstBlock
  have : L.groupCount * L.blocksPerGroup ≤ g * L.blocksPerGroup := Nat.mul_le_mul_right _ hg
  rw [if_pos (by have := hL.blocks_in_groups; omega)]

/-- what one pass does: only the lazy initialisation when the group has no clear bit, and else it takes a run of
clear bits of the bitmap it read, inside the group and at most `want` long -/
theorem extAllocBlocksPass_cases (fs : ExtFs) (g want goal : Nat) (hwant : 0 < want) :
    ((extAllocBlocksPass fs g want goal).2 = none ∧
        (extAllocBlocksPass fs g want goal).1 = extInitBlockBitmapLocked fs g) ∨
      ∃ bit run, bit + run ≤ extGroupBlocksCount fs.layout g ∧ 0 < run ∧ run ≤ want ∧
        (∀ k < run, testBit (passBitmap (extInitBlockBitmapLocked fs g) g) (bit + k) = false) ∧
        (extAllocBlocksPass fs g want goal).2 = some (extGroupFirstBlock fs.layout g + bit, run) ∧
        (extAllocBlocksPass fs g want goal).1 = commitRun (extInitBlockBitmapLocked fs g) g bit run := by
  unfold extAllocBlocksPass
  simp only [extInitBlockBitmapLocked_layout]
  split
  · exact .inl ⟨rfl, rfl⟩
  rename_i hfree
  split
  · exact .inl ⟨rfl, rfl⟩
  rename_i scan hscan
  have hbc : 0 < extGroupBlocksCount fs.layout g := by
    by_contra h0
    rw [Nat.eq_zero_of_not_pos h0] at hfree
    exact hfree rfl
  set startBit := if goal ≥ extGroupFirstBlock fs.layout g ∧
    goal < extGroupFirstBlock fs.layout g + extGroupBlocksCount fs.layout g then goal - extGroupFirstBlock fs.layout g
    else 0
  have hbit : (startBit + scan) % extGroupBlocksCount fs.layout g < extGroupBlocksCount fs.layout g :=
    Nat.mod_lt _ hbc
  have hclear0 := List.find?_some hscan
  simp only [Bool.not_eq_eq_eq_not, Bool.not_true] at hclear0
  set bit := (startBit + scan) % extGroupBlocksCount fs.layout g
  set bitmap := extBitmapSetPadding fs.layout
    (extMarkBlockGroupMetadata fs.layout g ((extInitBlockBitmapLocked fs g).blockBitmapOf g))
    (extGroupBlocksCount fs.layout g)
  have hmax : 1 ≤ min (extGroupBlocksCount fs.layout g - bit) want := by omega
  have hge := extendRun_ge bitmap bit (min (extGroupBlocksCount fs.layout g - bit) want) 1
  have hle := extendRun_le bitmap bit (min (extGroupBlocksCount fs.layout g - bit) want) 1 hmax
  have hpass : passBitmap (extInitBlockBitmapLocked fs g) g = bitmap := by
    simp only [passBitmap, extInitBlockBitmapLocked_layout, bitmap]
  refine .inr ⟨bit, _, by omega, by omega, by omega, fun k hk => ?_, rfl, ?_⟩
  · rw [hpass]
    by_cases hk0 : k = 0
    · subst hk0
      exact hclear0
    · exact extendRun_clear bitmap bit _ 1 k (by omega) hk
  · simp only [commitRun, hpass, extInitBlockBitmapLocked_layout]

variable {fs : ExtFs} {g bit run : Nat}

/-- a block of a run of clear bits is no group's bitmap: the marking would have set its bit -/
theorem run_ne_bitmap (hg : g < fs.layout.groupCount) (hrun : bit + run ≤ extGroupBlocksCount fs.layout g)
    (hclear : ∀ k < run, testBit (passBitmap fs g) (bit + k) = false) :
    ∀ k < run, ∀ o < fs.layout.groupCount, extGroupFirstBlock fs.layout g + bit + k ≠ fs.layout.blockBitmap o ∧
      extGroupFirstBlock fs.layout g + bit + k ≠ fs.layout.inodeBitmap o := by
  intro k hk o ho
  have hcontains : ∀ b, b = extGroupFirstBlock fs.layout g + bit + k →
      extGroupContainsBlock fs.layout g b = some (bit + k) := by
    intro b hb
    unfold extGroupContainsBlock
    rw [if_neg (by omega)]
    dsimp only
    rw [if_neg (by omega), hb]
    congr 1
    omega
  have hset : IsMetaBit fs.layout g (bit + k) → False := fun hm => by
    have := hclear k hk
    rw [testBit_passBitmap, decide_eq_true hm] at this
    simp at this
  constructor
  · intro hb
    exact hset (isMetaBit_of_contains fs.layout ho (.inl (hcontains _ hb.symm)))
  · intro hb
    exact hset (isMetaBit_of_contains fs.layout ho (.inr (hcontains _ hb.symm)))

/-- a pass that takes a run of clear bits keeps the invariant -/
theorem Consistent.commitRun (hc : Consistent fs) (hg : g < fs.layout.groupCount)
    (hu : (fs.groups g).blockUninit = false) (hrun : bit + run ≤ extGroupBlocksCount fs.layout g)
    (hclear : ∀ k < run, testBit (passBitmap fs g) (bit + k) = false) : Consistent (commitRun fs g bit run) := by
  have hz := hc.zeroBlocks (extGroupFirstBlock fs.layout g + bit) run (run_ne_bitmap hg hrun hclear)
  set B := setRange (passBitmap fs g) bit run with hB
  have h := hz.commitBlockBitmap (g := g) (by rw [zeroBlocks_layout]; exact hg) B
    { fs.groups g with freeBlocks := countFree B (extGroupBlocksCount fs.layout g) }
    (fun j hj => by
      rw [zeroBlocks_layout] at hj
      simp [hB, testBit_setRange, testBit_passBitmap, hj])
    (fun j hlo hhi => by
      rw [zeroBlocks_layout] at hlo hhi
      simp [hB, testBit_setRange, testBit_passBitmap, hlo, hhi])
    (fun h => absurd (hu ▸ h) Bool.false_ne_true) (by rw [zeroBlocks_layout]) (by rw [zeroBlocks_groups])
    (by rw [zeroBlocks_groups])
  simp only [zeroBlocks_layout] at h
  unfold Naos.Ext.commitRun
  simp only [writeBlock_groups, zeroBlocks_groups]
  exact h

theorem lt_groupCount_of_blocks (hc : Consistent fs) (h : 0 < extGroupBlocksCount fs.layout g) :
    g < fs.layout.groupCount := by
  by_contra hge
  rw [extGroupBlocksCount_eq_zero hc.layout (Nat.le_of_not_lt hge)] at h
  exact lt_irrefl 0 h

theorem Consistent.extAllocBlocksPass (hc : Consistent fs) (g : Nat) {want : Nat} (goal : Nat) (hwant : 0 < want) :
    Consistent (extAllocBlocksPass fs g want goal).1 := by
  rcases extAllocBlocksPass_cases fs g want goal hwant with ⟨-, h⟩ | ⟨bit, run, hrun, hpos, -, hclear, -, h⟩
  · rw [h]
    exact hc.extInitBlockBitmapLocked g
  · have hg := lt_groupCount_of_blocks hc (by omega : 0 < extGroupBlocksCount fs.layout g)
    rw [h]
    exact (hc.extInitBlockBitmapLocked g).commitRun (by simpa using hg) (extInitBlockBitmapLocked_blockUninit hg)
      (by simpa using hrun) hclear

variable {preferGroup want goal : Nat}

theorem Consistent.extAllocBlocksLoop (hwant : 0 < want) :
    ∀ (passes : List Nat) {fs : ExtFs}, Consistent fs →
      Consistent (extAllocBlocksLoop preferGroup want goal fs passes).1
  | [], _, hc => hc
  | pass :: passes, fs, hc => by
    have hpass := hc.extAllocBlocksPass ((preferGroup + pass) % fs.layout.groupCount) goal hwant
    rw [extAllocBlocksLoop_cons]
    dsimp only
    split
    · exact hpass
    · exact Consistent.extAllocBlocksLoop hwant passes hpass

/-- the passes that find no run change no bit -/
theorem extAllocBlocksPass_none_agree (hc : Consistent fs) (hwant : 0 < want)
    (h : (extAllocBlocksPass fs g want goal).2 = none) : BitsAgree fs (extAllocBlocksPass fs g want goal).1 := by
  rcases extAllocBlocksPass_cases fs g want goal hwant with ⟨-, h1⟩ | ⟨bit, run, -, -, -, -, hsome, -⟩
  · rw [h1]
    exact extInitBlockBitmapLocked_agree hc g
  · rw [hsome] at h
    cases h

/-- the run the loop returns was taken by one pass, from a state whose bitmaps agree with the one the loop started
from -/
theorem extAllocBlocksLoop_some (hwant : 0 < want) :
    ∀ (passes : List Nat) {fs : ExtFs}, Consistent fs → ∀ {b n : Nat},
      (extAllocBlocksLoop preferGroup want goal fs passes).2 = some (b, n) →
      ∃ fs₀ g bit, BitsAgree fs fs₀ ∧ Consistent fs₀ ∧ g < fs.layout.groupCount ∧
        (fs₀.groups g).blockUninit = false ∧ bit + n ≤ extGroupBlocksCount fs.layout g ∧ 0 < n ∧ n ≤ want ∧
        (∀ k < n, testBit (passBitmap fs₀ g) (bit + k) = false) ∧ b = extGroupFirstBlock fs.layout g + bit ∧
        (extAllocBlocksLoop preferGroup want goal fs passes).1 = commitRun fs₀ g bit n
  | [], _, _, _, _, h => by
    simp [extAllocBlocksLoop_nil] at h
  | pass :: passes, fs, hc, b, n, h => by
    rw [extAllocBlocksLoop_cons] at h ⊢
    dsimp only at h ⊢
    split at h
    · rename_i r hr
      simp only [Option.some.injEq] at h
      subst h
      dsimp only
      set g := (preferGroup + pass) % fs.layout.groupCount
      rcases extAllocBlocksPass_cases fs g want goal hwant with ⟨hnone, -⟩ | ⟨bit, run, hrun, hpos, hle, hclear, hsome,
        hstate⟩
      · rw [hnone] at hr
        cases hr
      · rw [hsome] at hr
        cases hr
        have hg := lt_groupCount_of_blocks hc (by omega : 0 < extGroupBlocksCount fs.layout g)
        exact ⟨_, g, bit, extInitBlockBitmapLocked_agree hc g, hc.extInitBlockBitmapLocked g, hg,
          extInitBlockBitmapLocked_blockUninit hg, hrun, hpos, hle, hclear, rfl, hstate⟩
    · rename_i hr
      set g := (preferGroup + pass) % fs.layout.groupCount
      have hagree : BitsAgree fs (extAllocBlocksPass fs g want goal).1 := extAllocBlocksPass_none_agree hc hwant hr
      obtain ⟨fs₀, g', bit, hag, hc₀, hg', hu, hrun, hpos, hle, hclear, hb, hstate⟩ :=
        extAllocBlocksLoop_some hwant passes (hc.extAllocBlocksPass g goal hwant) h
      rw [hagree.layout] at hg' hrun hb
      exact ⟨fs₀, g', bit, hagree.trans hag, hc₀, hg', hu, hrun, hpos, hle, hclear, hb, hstate⟩

@[simp] theorem commitRun_layout : (commitRun fs g bit run).layout = fs.layout := by
  simp [commitRun]

theorem commitRun_disk (b : Nat) : (commitRun fs g bit run).disk b =
    Function.update (zeroBlocks fs (extGroupFirstBlock fs.layout g + bit) run).disk (fs.layout.blockBitmap g)
      (setRange (passBitmap fs g) bit run) b := by
  simp [commitRun]

theorem commitRun_blockBitmapOf : (commitRun fs g bit run).blockBitmapOf g = setRange (passBitmap fs g) bit run := by
  rw [ExtFs.blockBitmapOf, commitRun_disk, commitRun_layout, Function.update_self]

theorem extGroupBlocksCount_add_le (L : Layout) (g : Nat) (h : 0 < extGroupBlocksCount L g) :
    extGroupFirstBlock L g + extGroupBlocksCount L g ≤ L.blocksCount := by
  unfold extGroupBlocksCount at h ⊢
  dsimp only at h ⊢
  split at h
  · omega
  · rw [if_neg (by assumption)]
    omega

theorem Consistent.extAllocBlocksLocked (hc : Consistent fs) (preferGroup want goal : Nat) :
    Consistent (extAllocBlocksLocked fs preferGroup want goal).1 := by
  unfold Naos.Ext.extAllocBlocksLocked
  split
  · exact hc
  · dsimp only
    split <;> exact hc.extAllocBlocksLoop (by omega) _

/-- an allocation returns a run of one to `want` blocks inside one group and inside
`[s_first_data_block, blocks_count)`, whose bits were clear before the call and are set after it, and whose blocks
read zero -/
theorem extAllocBlocksLocked_run (hc : Consistent fs) {b n : Nat}
    (h : (extAllocBlocksLocked fs preferGroup want goal).2 = .ok (b, n)) :
    ∃ g bit, g < fs.layout.groupCount ∧ b = extGroupFirstBlock fs.layout g + bit ∧ 0 < n ∧ n ≤ want ∧
      bit + n ≤ extGroupBlocksCount fs.layout g ∧ fs.layout.firstDataBlock ≤ b ∧ b + n ≤ fs.layout.blocksCount ∧
      ∀ k < n, testBit (fs.blockBitmapOf g) (bit + k) = false ∧
        testBit ((extAllocBlocksLocked fs preferGroup want goal).1.blockBitmapOf g) (bit + k) = true ∧
        (extAllocBlocksLocked fs preferGroup want goal).1.disk (b + k) = empty := by
  unfold Naos.Ext.extAllocBlocksLocked at h ⊢
  by_cases hwant : want = 0
  · simp [hwant] at h
  rw [if_neg hwant] at h ⊢
  dsimp only at h ⊢
  rcases hrun : (extAllocBlocksLoop preferGroup want goal fs (List.range fs.layout.groupCount)).2 with _ | run
  · rw [hrun] at h
    cases h
  · rw [hrun] at h
    dsimp only at h ⊢
    simp only [Except.ok.injEq] at h
    subst h
    obtain ⟨fs₀, g, bit, hag, hc₀, hg, hu, hbits, hpos, hle, hclear, hb, hstate⟩ :=
      extAllocBlocksLoop_some (by omega) _ hc hrun
    have hbc := (extGroupBlocksCount_le fs.layout g).trans hc.layout.blocksPerGroup_le
    have hin := extGroupBlocksCount_add_le fs.layout g (by omega)
    refine ⟨g, bit, hg, hb, hpos, hle, hbits, ?_, by omega, fun k hk => ⟨?_, ?_, ?_⟩⟩
    · rw [hb, extGroupFirstBlock]
      omega
    · have h0 := hclear k hk
      rw [testBit_passBitmap] at h0
      simp only [Bool.or_eq_false_iff] at h0
      rw [← hag.blockBits g hg (bit + k) (by omega)]
      exact h0.1.1
    · rw [hstate, commitRun_blockBitmapOf, testBit_setRange]
      simp [hk]
    · rw [hstate, commitRun_disk, Function.update_of_ne, zeroBlocks_disk, if_pos]
      · rw [hag.layout, hb]
        omega
      · rw [hag.layout, hb]
        have := (run_ne_bitmap (hag.layout ▸ hg) (hag.layout ▸ hbits) hclear k hk g (hag.layout ▸ hg)).1
        rw [hag.layout] at this
        omega

end AllocBlocks

/-! ## The free of a block -/

section FreeBlock

/-- the group `ext_free_block_locked` maps a block to -/
def blockGroup (L : Layout) (block : Nat) : Nat := (block - L.firstDataBlock) / L.blocksPerGroup

/-- the bit `ext_free_block_locked` maps a block to -/
def blockBit (L : Layout) (block : Nat) : Nat := (block - L.firstDataBlock) % L.blocksPerGroup

variable {L : Layout}

/-- every block of the data range lies in a group, at a bit inside the group, and the allocator's
`ext_group_first_block` maps that group and bit back to it -/
theorem blockGroup_spec (hL : LayoutOk L) (block : Nat) (hlo : L.firstDataBlock ≤ block) (hhi : block < L.blocksCount) :
    blockGroup L block < L.groupCount ∧ blockBit L block < extGroupBlocksCount L (blockGroup L block) ∧
      extGroupFirstBlock L (blockGroup L block) + blockBit L block = block := by
  have hpos := hL.blocksPerGroup_pos
  have hsplit : L.blocksPerGroup * blockGroup L block + blockBit L block = block - L.firstDataBlock :=
    Nat.div_add_mod _ _
  have hbit : blockBit L block < L.blocksPerGroup := Nat.mod_lt _ hpos
  have hfirst : extGroupFirstBlock L (blockGroup L block) + blockBit L block = block := by
    rw [extGroupFirstBlock, Nat.mul_comm (blockGroup L block)]
    omega
  refine ⟨?_, ?_, hfirst⟩
  · apply (Nat.div_lt_iff_lt_mul hpos).2
    have := hL.blocks_in_groups
    omega
  · unfold extGroupBlocksCount
    rw [if_neg (by omega)]
    omega

/-- the free maps a block of the allocator's run back to the group and bit the allocator took it from -/
theorem blockGroup_first (hL : LayoutOk L) {g bit : Nat} (hbit : bit < extGroupBlocksCount L g) :
    blockGroup L (extGroupFirstBlock L g + bit) = g ∧ blockBit L (extGroupFirstBlock L g + bit) = bit := by
  have hpos := hL.blocksPerGroup_pos
  have hlt : bit < L.blocksPerGroup := lt_of_lt_of_le hbit (extGroupBlocksCount_le L g)
  have hsub : extGroupFirstBlock L g + bit - L.firstDataBlock = bit + g * L.blocksPerGroup := by
    rw [extGroupFirstBlock]
    omega
  constructor
  · rw [blockGroup, hsub, Nat.add_mul_div_right _ _ hpos, Nat.div_eq_of_lt hlt, Nat.zero_add]
  · rw [blockBit, hsub, Nat.add_mul_mod_self_right, Nat.mod_eq_of_lt hlt]

variable {fs : ExtFs}

/-- the bitmap the free writes back: the bit cleared, then the metadata and padding bits set again -/
theorem testBit_freeBitmap (g bit j : Nat) :
    testBit (extBitmapSetPadding fs.layout (extMarkBlockGroupMetadata fs.layout g (clearBit (fs.blockBitmapOf g) bit))
      (extGroupBlocksCount fs.layout g)) j =
      ((!decide (j = bit) && testBit (fs.blockBitmapOf g) j) || decide (IsMetaBit fs.layout g j) ||
        decide (extGroupBlocksCount fs.layout g ≤ j ∧ j < fs.layout.blockSize * 8)) := by
  rw [testBit_extBitmapSetPadding, testBit_extMarkBlockGroupMetadata, testBit_clearBit]

theorem Consistent.extFreeBlockLocked (hc : Consistent fs) (block : Nat) :
    Consistent (extFreeBlockLocked fs block).1 := by
  unfold Naos.Ext.extFreeBlockLocked
  dsimp only
  split
  · exact hc
  rename_i hout
  obtain ⟨hg, hbit, -⟩ := blockGroup_spec hc.layout block (by omega) (by omega)
  rw [show (block - fs.layout.firstDataBlock) / fs.layout.blocksPerGroup = blockGroup fs.layout block from rfl,
    show (block - fs.layout.firstDataBlock) % fs.layout.blocksPerGroup = blockBit fs.layout block from rfl]
  refine hc.commitBlockBitmap hg _ _ (fun j hj => ?_) (fun j hlo hhi => ?_) (fun hu j hj => ?_) rfl rfl rfl
  · simp [testBit_freeBitmap, hj]
  · simp [testBit_freeBitmap, hlo, hhi]
  · have hold := hc.blockUninit _ hg hu j hj
    rw [testBit_impliedBlockBitmap] at hold
    rw [testBit_freeBitmap, testBit_impliedBlockBitmap]
    by_cases hjb : j = blockBit fs.layout block
    · simp [hjb]
    · rw [decide_eq_false hjb, Bool.not_false, Bool.true_and, hold]
      cases decide (IsMetaBit fs.layout (blockGroup fs.layout block) j) <;>
        cases decide (extGroupBlocksCount fs.layout (blockGroup fs.layout block) ≤ j ∧ j < fs.layout.blockSize * 8) <;>
        rfl

/-- freeing a block the group's metadata holds, or a block that is already free, writes back the bitmap it read and
the counts there were: the file system is unchanged -/
theorem extFreeBlockLocked_noop (hc : Consistent fs) {block : Nat} (hlo : fs.layout.firstDataBlock ≤ block)
    (hhi : block < fs.layout.blocksCount)
    (h : IsMetaBit fs.layout (blockGroup fs.layout block) (blockBit fs.layout block) ∨
      testBit (fs.blockBitmapOf (blockGroup fs.layout block)) (blockBit fs.layout block) = false) :
    extFreeBlockLocked fs block = (fs, 0) := by
  obtain ⟨hg, hbit, -⟩ := blockGroup_spec hc.layout block hlo hhi
  unfold Naos.Ext.extFreeBlockLocked
  dsimp only
  rw [if_neg (by omega), show (block - fs.layout.firstDataBlock) / fs.layout.blocksPerGroup = blockGroup fs.layout block
    from rfl, show (block - fs.layout.firstDataBlock) % fs.layout.blocksPerGroup = blockBit fs.layout block from rfl]
  set g := blockGroup fs.layout block
  set bit := blockBit fs.layout block
  have hB : extBitmapSetPadding fs.layout (extMarkBlockGroupMetadata fs.layout g (clearBit (fs.blockBitmapOf g) bit))
      (extGroupBlocksCount fs.layout g) = fs.blockBitmapOf g := by
    apply testBit_ext
    intro j
    rw [testBit_freeBitmap]
    by_cases hpad : extGroupBlocksCount fs.layout g ≤ j ∧ j < fs.layout.blockSize * 8
    · rw [decide_eq_true hpad, Bool.or_true, hc.blockPad g hg j hpad.1 hpad.2]
    by_cases hm : IsMetaBit fs.layout g j
    · rw [decide_eq_true hm, hc.metaBits g hg j hm]
      simp
    rw [decide_eq_false hpad, decide_eq_false hm, Bool.or_false, Bool.or_false]
    by_cases hjb : j = bit
    · subst hjb
      simp [h.resolve_left hm]
    · simp [hjb]
  have hw : fs.writeBlock (fs.layout.blockBitmap g) (fs.blockBitmapOf g) = fs := by
    simp [ExtFs.writeBlock, ExtFs.blockBitmapOf]
  have hgd : { fs.groups g with freeBlocks := countFree (fs.blockBitmapOf g) (extGroupBlocksCount fs.layout g) } =
      fs.groups g := by
    rw [← hc.freeBlocks g hg]
  have hs : fs.setGroup g (fs.groups g) = fs := by
    simp [ExtFs.setGroup]
  rw [hB, hw, hgd, hs, ← hc.sumBlocks]

end FreeBlock

/-! ## The inode allocator -/

section AllocInode

/-- the bitmap an inode pass reads: the group's bitmap with its padding bits set -/
def inodePassBitmap (fs : ExtFs) (g : Nat) : Nat → BitVec 8 :=
  extBitmapSetPadding fs.layout (fs.inodeBitmapOf g) (extGroupInodesCount fs.layout g)

/-- what a pass that takes bit `bit` of the group leaves -/
def commitInode (fs : ExtFs) (mode g bit : Nat) : ExtFs :=
  let B := setBit (inodePassBitmap fs g) bit
  let fs₁ := fs.writeBlock (fs.layout.inodeBitmap g) B
  let gd := { fs₁.groups g with freeInodes := countFree B (extGroupInodesCount fs.layout g) }
  let gd := if mode &&& S_IFMT = EXT2_S_IFDIR then { gd with usedDirs := gd.usedDirs + 1 } else gd
  let fs₂ := fs₁.setGroup g gd
  { fs₂ with freeInodesCount := extGroupsFreeInodesSum fs₂ }

theorem testBit_inodePassBitmap (fs : ExtFs) (g j : Nat) :
    testBit (inodePassBitmap fs g) j = (testBit (fs.inodeBitmapOf g) j ||
      decide (extGroupInodesCount fs.layout g ≤ j ∧ j < fs.layout.blockSize * 8)) := by
  rw [inodePassBitmap, testBit_extBitmapSetPadding]

/-- what one pass does: only the lazy initialisation when it finds no inode, and else it takes a clear bit of the
bitmap it read, inside the group and at or past the first non-reserved inode -/
theorem extAllocInodePass_cases (fs : ExtFs) (mode g : Nat) :
    ((extAllocInodePass fs mode g).2 = none ∧ (extAllocInodePass fs mode g).1 = extInitInodeBitmapLocked fs g) ∨
      ∃ bit, bit < extGroupInodesCount fs.layout g ∧
        extFirstNonreservedInode fs.layout ≤ extGroupInodeStart fs.layout g + bit ∧
        testBit (inodePassBitmap (extInitInodeBitmapLocked fs g) g) bit = false ∧
        (extAllocInodePass fs mode g).2 = some (extGroupInodeStart fs.layout g + bit) ∧
        (extAllocInodePass fs mode g).1 = commitInode (extInitInodeBitmapLocked fs g) mode g bit := by
  unfold extAllocInodePass
  simp only [extInitInodeBitmapLocked_layout]
  split
  · exact .inl ⟨rfl, rfl⟩
  split
  · exact .inl ⟨rfl, rfl⟩
  rename_i bit hbit
  have hmem := List.mem_range.1 (List.mem_of_find?_eq_some hbit)
  have hfound := List.find?_some hbit
  simp only [Bool.and_eq_true, Bool.not_eq_eq_eq_not, Bool.not_true, decide_eq_false_iff_not, not_lt] at hfound
  have hpass : inodePassBitmap (extInitInodeBitmapLocked fs g) g = extBitmapSetPadding fs.layout
      ((extInitInodeBitmapLocked fs g).inodeBitmapOf g) (extGroupInodesCount fs.layout g) := by
    simp only [inodePassBitmap, extInitInodeBitmapLocked_layout]
  refine .inr ⟨bit, hmem, hfound.1, hpass ▸ hfound.2, rfl, ?_⟩
  simp only [commitInode, hpass, extInitInodeBitmapLocked_layout]

variable {fs : ExtFs} {mode g bit : Nat}

@[simp] theorem commitInode_layout : (commitInode fs mode g bit).layout = fs.layout := by
  simp [commitInode]

theorem commitInode_inodeBitmapOf :
    (commitInode fs mode g bit).inodeBitmapOf g = setBit (inodePassBitmap fs g) bit := by
  simp [commitInode, ExtFs.inodeBitmapOf]

theorem commitInode_groups_of_ne {g' : Nat} (h : g' ≠ g) : (commitInode fs mode g bit).groups g' = fs.groups g' := by
  simp [commitInode, Function.update_of_ne h]

theorem commitInode_inodeBitmapOf_of_ne {g' : Nat} (h : fs.layout.inodeBitmap g' ≠ fs.layout.inodeBitmap g) :
    (commitInode fs mode g bit).inodeBitmapOf g' = fs.inodeBitmapOf g' := by
  simp [commitInode, ExtFs.inodeBitmapOf, Function.update_of_ne h]

theorem extInitInodeBitmapLocked_of_uninit (hg : g < fs.layout.groupCount) (hu : (fs.groups g).inodeUninit = true) :
    extInitInodeBitmapLocked fs g = (fs.writeBlock (fs.layout.inodeBitmap g) (impliedInodeBitmap fs.layout g)).setGroup
      g { fs.groups g with inodeUninit := false, inodeZeroed := true } := by
  simp [extInitInodeBitmapLocked, Nat.not_le.2 hg, hu]

theorem extInitInodeBitmapLocked_of_init (hu : (fs.groups g).inodeUninit = false) :
    extInitInodeBitmapLocked fs g = fs := by
  simp [extInitInodeBitmapLocked, hu]

theorem inodePassBitmap_init (fs : ExtFs) (g : Nat) :
    inodePassBitmap (extInitInodeBitmapLocked fs g) g = extBitmapSetPadding fs.layout
      ((extInitInodeBitmapLocked fs g).inodeBitmapOf g) (extGroupInodesCount fs.layout g) := by
  simp only [inodePassBitmap, extInitInodeBitmapLocked_layout]

/-- a pass over a group whose bitmap, once initialised, has no clear bit takes nothing -/
theorem extAllocInodePass_of_full
    (h : countFree (inodePassBitmap (extInitInodeBitmapLocked fs g) g) (extGroupInodesCount fs.layout g) = 0) :
    extAllocInodePass fs mode g = (extInitInodeBitmapLocked fs g, none) := by
  rw [inodePassBitmap_init] at h
  unfold extAllocInodePass
  simp only [extInitInodeBitmapLocked_layout]
  rw [if_pos h]

/-- a pass takes the first bit at or past the first non-reserved inode that is clear in the bitmap it reads -/
theorem extAllocInodePass_of_first (hbit : bit < extGroupInodesCount fs.layout g)
    (hfirst : extFirstNonreservedInode fs.layout ≤ extGroupInodeStart fs.layout g + bit)
    (hclear : testBit (inodePassBitmap (extInitInodeBitmapLocked fs g) g) bit = false)
    (hbefore : ∀ j < bit, extGroupInodeStart fs.layout g + j < extFirstNonreservedInode fs.layout ∨
      testBit (inodePassBitmap (extInitInodeBitmapLocked fs g) g) j = true) :
    extAllocInodePass fs mode g =
      (commitInode (extInitInodeBitmapLocked fs g) mode g bit, some (extGroupInodeStart fs.layout g + bit)) := by
  have hpos := countFree_setBit hbit hclear
  rw [inodePassBitmap_init] at hpos hclear hbefore
  have hfind : (List.range (extGroupInodesCount fs.layout g)).find? (fun j =>
      !decide (extGroupInodeStart fs.layout g + j < extFirstNonreservedInode fs.layout) &&
        !testBit (extBitmapSetPadding fs.layout ((extInitInodeBitmapLocked fs g).inodeBitmapOf g)
          (extGroupInodesCount fs.layout g)) j) = some bit := by
    refine List.find?_range_eq_some.2 ⟨by simp [hclear]; omega, List.mem_range.2 hbit, fun j hj => ?_⟩
    rcases hbefore j hj with h | h <;> simp [h]
  unfold extAllocInodePass
  simp only [extInitInodeBitmapLocked_layout]
  rw [if_neg (by omega), hfind]
  simp only [commitInode, inodePassBitmap_init, extInitInodeBitmapLocked_layout]

/-- a pass that takes a clear bit keeps the invariant, whatever it does to the count of directories -/
theorem Consistent.commitInode (hc : Consistent fs) (hg : g < fs.layout.groupCount)
    (hu : (fs.groups g).inodeUninit = false) : Consistent (commitInode fs mode g bit) := by
  unfold Naos.Ext.commitInode
  dsimp only
  refine hc.commitInodeBitmap hg _ _ (fun j hlo hhi => ?_) (fun h => ?_) (fun h => ?_) ?_ ?_ ?_
  · simp [testBit_inodePassBitmap, hlo, hhi]
  all_goals try (exfalso; revert h)
  all_goals split <;> simp [hu]

theorem lt_groupCount_of_inodes (hc : Consistent fs) (h : 0 < extGroupInodesCount fs.layout g) :
    g < fs.layout.groupCount := by
  by_contra hge
  have : fs.layout.groupCount * fs.layout.inodesPerGroup ≤ g * fs.layout.inodesPerGroup :=
    Nat.mul_le_mul_right _ (Nat.le_of_not_lt hge)
  have hin := hc.layout.inodes_in_groups
  unfold extGroupInodesCount at h
  rw [if_pos (by omega)] at h
  exact lt_irrefl 0 h

theorem Consistent.extAllocInodePass (hc : Consistent fs) (mode g : Nat) :
    Consistent (extAllocInodePass fs mode g).1 := by
  rcases extAllocInodePass_cases fs mode g with ⟨-, h⟩ | ⟨bit, hbit, -, -, -, h⟩
  · rw [h]
    exact hc.extInitInodeBitmapLocked g
  · have hg := lt_groupCount_of_inodes hc (by omega : 0 < extGroupInodesCount fs.layout g)
    rw [h]
    exact (hc.extInitInodeBitmapLocked g).commitInode (by simpa using hg) (extInitInodeBitmapLocked_inodeUninit hg)

theorem Consistent.extAllocInodeLoop (hc : Consistent fs) :
    ∀ groups : List Nat, Consistent (extAllocInodeLoop mode fs groups).1 := by
  intro groups
  induction groups generalizing fs with
  | nil => exact hc
  | cons g groups ih =>
    rw [extAllocInodeLoop_cons]
    dsimp only
    split
    · exact hc.extAllocInodePass mode g
    · exact ih (hc.extAllocInodePass mode g)

theorem Consistent.extAllocInodeLocked (hc : Consistent fs) (mode : Nat) :
    Consistent (extAllocInodeLocked fs mode).1 := by
  unfold Naos.Ext.extAllocInodeLocked
  dsimp only
  split <;> exact hc.extAllocInodeLoop _

/-- the inode the loop returns was taken by one pass, from a state whose bitmaps agree with the one the loop started
from -/
theorem extAllocInodeLoop_some :
    ∀ (groups : List Nat) {fs : ExtFs}, Consistent fs → ∀ {ino : Nat},
      (extAllocInodeLoop mode fs groups).2 = some ino →
      ∃ fs₀ g bit, BitsAgree fs fs₀ ∧ g < fs.layout.groupCount ∧ bit < extGroupInodesCount fs.layout g ∧
        extFirstNonreservedInode fs.layout ≤ ino ∧ testBit (inodePassBitmap fs₀ g) bit = false ∧
        ino = extGroupInodeStart fs.layout g + bit ∧ (extAllocInodeLoop mode fs groups).1 = commitInode fs₀ mode g bit
  | [], _, _, _, h => by
    simp [extAllocInodeLoop_nil] at h
  | g :: groups, fs, hc, ino, h => by
    rw [extAllocInodeLoop_cons] at h ⊢
    dsimp only at h ⊢
    split at h
    · rename_i r hr
      simp only [Option.some.injEq] at h
      subst h
      dsimp only
      rcases extAllocInodePass_cases fs mode g with ⟨hnone, -⟩ | ⟨bit, hbit, hfirst, hclear, hsome, hstate⟩
      · rw [hnone] at hr
        cases hr
      · rw [hsome] at hr
        cases hr
        have hg := lt_groupCount_of_inodes hc (by omega : 0 < extGroupInodesCount fs.layout g)
        exact ⟨_, g, bit, extInitInodeBitmapLocked_agree hc g, hg, hbit, hfirst, hclear, rfl, hstate⟩
    · rename_i hr
      have hagree : BitsAgree fs (extAllocInodePass fs mode g).1 := by
        rcases extAllocInodePass_cases fs mode g with ⟨-, h1⟩ | ⟨bit, -, -, -, hsome, -⟩
        · rw [h1]
          exact extInitInodeBitmapLocked_agree hc g
        · rw [hsome] at hr
          cases hr
      obtain ⟨fs₀, g', bit, hag, hg', hbit, hfirst, hclear, hino, hstate⟩ :=
        extAllocInodeLoop_some groups (hc.extAllocInodePass mode g) h
      rw [hagree.layout] at hg' hbit hfirst hino
      exact ⟨fs₀, g', bit, hagree.trans hag, hg', hbit, hfirst, hclear, hino, hstate⟩

theorem extGroupInodeStart_add_le (L : Layout) {g bit : Nat} (hbit : bit < extGroupInodesCount L g) :
    extGroupInodeStart L g + bit ≤ L.inodesCount := by
  unfold extGroupInodesCount at hbit
  dsimp only at hbit
  rw [extGroupInodeStart]
  split at hbit <;> omega

/-- an inode allocation returns an inode of one group, at or past the first non-reserved inode and within
`inodes_count`, whose bit was clear before the call and is set after it -/
theorem extAllocInodeLocked_ino (hc : Consistent fs) {ino : Nat} (h : (extAllocInodeLocked fs mode).2 = .ok ino) :
    ∃ g bit, g < fs.layout.groupCount ∧ bit < extGroupInodesCount fs.layout g ∧
      ino = extGroupInodeStart fs.layout g + bit ∧ extFirstNonreservedInode fs.layout ≤ ino ∧
      ino ≤ fs.layout.inodesCount ∧ testBit (fs.inodeBitmapOf g) bit = false ∧
      testBit ((extAllocInodeLocked fs mode).1.inodeBitmapOf g) bit = true := by
  unfold Naos.Ext.extAllocInodeLocked at h ⊢
  dsimp only at h ⊢
  rcases hloop : (extAllocInodeLoop mode fs (List.range fs.layout.groupCount)).2 with _ | ino'
  · rw [hloop] at h
    cases h
  · rw [hloop] at h
    dsimp only at h ⊢
    simp only [Except.ok.injEq] at h
    subst h
    obtain ⟨fs₀, g, bit, hag, hg, hbit, hfirst, hclear, hino, hstate⟩ := extAllocInodeLoop_some _ hc hloop
    have hic := (extGroupInodesCount_le fs.layout g).trans hc.layout.inodesPerGroup_le
    refine ⟨g, bit, hg, hbit, hino, hfirst, hino ▸ extGroupInodeStart_add_le fs.layout hbit, ?_, ?_⟩
    · rw [testBit_inodePassBitmap, Bool.or_eq_false_iff] at hclear
      rw [← hag.inodeBits g hg bit (by omega)]
      exact hclear.1
    · rw [hstate, commitInode_inodeBitmapOf, testBit_setBit, decide_eq_true rfl, Bool.true_or]

end AllocInode

/-! ## The free of an inode -/

section FreeInode

/-- the group `ext_free_inode_locked` maps an inode to -/
def inodeGroup (L : Layout) (ino : Nat) : Nat := (ino - 1) / L.inodesPerGroup

/-- the bit `ext_free_inode_locked` maps an inode to -/
def inodeBit (L : Layout) (ino : Nat) : Nat := (ino - 1) % L.inodesPerGroup

variable {L : Layout}

theorem inodeGroup_spec (hL : LayoutOk L) (ino : Nat) (hlo : ino ≠ 0) (hhi : ino ≤ L.inodesCount) :
    inodeGroup L ino < L.groupCount ∧ inodeBit L ino < extGroupInodesCount L (inodeGroup L ino) ∧
      extGroupInodeStart L (inodeGroup L ino) + inodeBit L ino = ino := by
  have hpos := hL.inodesPerGroup_pos
  have hsplit : L.inodesPerGroup * inodeGroup L ino + inodeBit L ino = ino - 1 := Nat.div_add_mod _ _
  have hbit : inodeBit L ino < L.inodesPerGroup := Nat.mod_lt _ hpos
  have hstart : extGroupInodeStart L (inodeGroup L ino) + inodeBit L ino = ino := by
    rw [extGroupInodeStart, Nat.mul_comm (inodeGroup L ino)]
    omega
  refine ⟨?_, ?_, hstart⟩
  · apply (Nat.div_lt_iff_lt_mul hpos).2
    have := hL.inodes_in_groups
    omega
  · unfold extGroupInodesCount
    rw [Nat.mul_comm] at hsplit
    rw [if_neg (by omega)]
    omega

/-- the free maps an inode the allocator returned back to the group and bit it was taken from -/
theorem inodeGroup_start (hL : LayoutOk L) {g bit : Nat} (hbit : bit < extGroupInodesCount L g) :
    inodeGroup L (extGroupInodeStart L g + bit) = g ∧ inodeBit L (extGroupInodeStart L g + bit) = bit := by
  have hpos := hL.inodesPerGroup_pos
  have hlt : bit < L.inodesPerGroup := lt_of_lt_of_le hbit (extGroupInodesCount_le L g)
  have hsub : extGroupInodeStart L g + bit - 1 = bit + g * L.inodesPerGroup := by
    rw [extGroupInodeStart]
    omega
  constructor
  · rw [inodeGroup, hsub, Nat.add_mul_div_right _ _ hpos, Nat.div_eq_of_lt hlt, Nat.zero_add]
  · rw [inodeBit, hsub, Nat.add_mul_mod_self_right, Nat.mod_eq_of_lt hlt]

variable {fs : ExtFs}

theorem Consistent.extFreeInodeLocked (hc : Consistent fs) (ino : Nat) (isDir : Bool) :
    Consistent (extFreeInodeLocked fs ino isDir).1 := by
  unfold Naos.Ext.extFreeInodeLocked
  dsimp only
  split
  · exact hc
  rename_i hout
  obtain ⟨hg, hbit, -⟩ := inodeGroup_spec hc.layout ino (by omega) (by omega)
  rw [show (ino - 1) / fs.layout.inodesPerGroup = inodeGroup fs.layout ino from rfl,
    show (ino - 1) % fs.layout.inodesPerGroup = inodeBit fs.layout ino from rfl]
  set g := inodeGroup fs.layout ino
  have hne0 : (fs.groups g).inodeUninit = true → g ≠ 0 := by
    intro hu h0
    rw [h0, hc.group0 (by omega)] at hu
    exact Bool.false_ne_true hu
  refine hc.commitInodeBitmap hg _ _ (fun j hlo hhi => ?_) (fun hu j hj => ?_) (fun hu => ?_) ?_ ?_ ?_
  · simp [testBit_extBitmapSetPadding, hlo, hhi]
  · have hu' : (fs.groups g).inodeUninit = true := by
      split at hu <;> exact hu
    have hnot : ¬ (g = 0 ∧ j < min (extGroupReservedInodeCount fs.layout g) (extGroupInodesCount fs.layout g)) :=
      fun h => hne0 hu' h.1
    have hold := hc.inodeUninit g hg hu' j hj
    rw [testBit_impliedInodeBitmap, decide_eq_false hnot, Bool.false_or] at hold
    rw [testBit_extBitmapSetPadding, testBit_clearBit, testBit_impliedInodeBitmap, decide_eq_false hnot,
      Bool.false_or, hold]
    cases decide (j = inodeBit fs.layout ino) <;>
      cases decide (extGroupInodesCount fs.layout g ≤ j ∧ j < fs.layout.blockSize * 8) <;> rfl
  · apply hne0
    split at hu <;> exact hu
  all_goals split <;> rfl

end FreeInode

/-! ## Bits the calls keep set -/

/-- every bit set in the bitmaps of `fs` is set in those of `fs'` -/
structure BitsGrow (fs fs' : ExtFs) : Prop where
  layout : fs'.layout = fs.layout
  blockBits : ∀ g < fs.layout.groupCount, ∀ j < fs.layout.blockSize * 8,
    testBit (fs.blockBitmapOf g) j = true → testBit (fs'.blockBitmapOf g) j = true
  inodeBits : ∀ g < fs.layout.groupCount, ∀ j < fs.layout.blockSize * 8,
    testBit (fs.inodeBitmapOf g) j = true → testBit (fs'.inodeBitmapOf g) j = true

section Grow

variable {fs fs' fs'' : ExtFs} {mode g bit run preferGroup want goal : Nat}

theorem BitsAgree.grow (h : BitsAgree fs fs') : BitsGrow fs fs' :=
  ⟨h.layout, fun g hg j hj hset => (h.blockBits g hg j hj).trans hset,
    fun g hg j hj hset => (h.inodeBits g hg j hj).trans hset⟩

theorem BitsGrow.trans (h₁ : BitsGrow fs fs') (h₂ : BitsGrow fs' fs'') : BitsGrow fs fs'' := by
  refine ⟨h₂.layout.trans h₁.layout, fun g hg j hj hset => ?_, fun g hg j hj hset => ?_⟩
  · exact h₂.blockBits g (h₁.layout ▸ hg) j (h₁.layout ▸ hj) (h₁.blockBits g hg j hj hset)
  · exact h₂.inodeBits g (h₁.layout ▸ hg) j (h₁.layout ▸ hj) (h₁.inodeBits g hg j hj hset)

/-- a pass that takes a run sets the run's bits and keeps every other bit -/
theorem commitRun_grow (hc : Consistent fs) (hg : g < fs.layout.groupCount)
    (hrun : bit + run ≤ extGroupBlocksCount fs.layout g)
    (hclear : ∀ k < run, testBit (passBitmap fs g) (bit + k) = false) : BitsGrow fs (commitRun fs g bit run) := by
  have hz := run_ne_bitmap hg hrun hclear
  refine ⟨commitRun_layout, fun g' hg' j _ hset => ?_, fun g' hg' j _ hset => ?_⟩
  · rw [ExtFs.blockBitmapOf, commitRun_disk, commitRun_layout]
    by_cases hne : g' = g
    · subst hne
      rw [Function.update_self, testBit_setRange, testBit_passBitmap, hset]
      simp
    · rw [Function.update_of_ne fun h => hne (hc.layout.blockBitmap_inj g' hg' g hg h),
        zeroBlocks_disk_of_ne fs fun k hk => (hz k hk g' hg').1]
      exact hset
  · rw [ExtFs.inodeBitmapOf, commitRun_disk, commitRun_layout,
      Function.update_of_ne fun h => hc.layout.block_ne_inode g hg g' hg' h.symm,
      zeroBlocks_disk_of_ne fs fun k hk => (hz k hk g' hg').2]
    exact hset

/-- a pass that takes an inode sets its bit and keeps every other bit -/
theorem commitInode_grow (hc : Consistent fs) (hg : g < fs.layout.groupCount) :
    BitsGrow fs (commitInode fs mode g bit) := by
  refine ⟨commitInode_layout, fun g' hg' j _ hset => ?_, fun g' hg' j _ hset => ?_⟩
  · have hkeep : (commitInode fs mode g bit).blockBitmapOf g' = fs.blockBitmapOf g' := by
      simp [commitInode, ExtFs.blockBitmapOf, Function.update_of_ne (hc.layout.block_ne_inode g' hg' g hg)]
    rw [hkeep]
    exact hset
  · by_cases hne : g' = g
    · subst hne
      rw [commitInode_inodeBitmapOf, testBit_setBit, testBit_inodePassBitmap, hset]
      simp
    · have hkeep : (commitInode fs mode g bit).inodeBitmapOf g' = fs.inodeBitmapOf g' := by
        simp [commitInode, ExtFs.inodeBitmapOf,
          Function.update_of_ne fun h => hne (hc.layout.inodeBitmap_inj g' hg' g hg h)]
      rw [hkeep]
      exact hset

theorem extAllocBlocksPass_grow (hc : Consistent fs) (g goal : Nat) (hwant : 0 < want) :
    BitsGrow fs (extAllocBlocksPass fs g want goal).1 := by
  rcases extAllocBlocksPass_cases fs g want goal hwant with ⟨-, h⟩ | ⟨bit, run, hrun, hpos, -, hclear, -, h⟩
  · rw [h]
    exact (extInitBlockBitmapLocked_agree hc g).grow
  · have hg := lt_groupCount_of_blocks hc (by omega : 0 < extGroupBlocksCount fs.layout g)
    rw [h]
    exact (extInitBlockBitmapLocked_agree hc g).grow.trans
      (commitRun_grow (hc.extInitBlockBitmapLocked g) (by simpa using hg) (by simpa using hrun) hclear)

theorem extAllocBlocksLoop_grow (hwant : 0 < want) :
    ∀ (passes : List Nat) {fs : ExtFs}, Consistent fs →
      BitsGrow fs (extAllocBlocksLoop preferGroup want goal fs passes).1
  | [], fs, _ => (BitsAgree.refl fs).grow
  | pass :: passes, fs, hc => by
    have hpass := extAllocBlocksPass_grow hc ((preferGroup + pass) % fs.layout.groupCount) goal hwant
    rw [extAllocBlocksLoop_cons]
    dsimp only
    split
    · exact hpass
    · exact hpass.trans (extAllocBlocksLoop_grow hwant passes (hc.extAllocBlocksPass _ goal hwant))

theorem extAllocBlocksLocked_grow (hc : Consistent fs) (preferGroup want goal : Nat) :
    BitsGrow fs (extAllocBlocksLocked fs preferGroup want goal).1 := by
  unfold Naos.Ext.extAllocBlocksLocked
  split
  · exact (BitsAgree.refl fs).grow
  · dsimp only
    split <;> exact extAllocBlocksLoop_grow (by omega) _ hc

theorem extAllocInodePass_grow (hc : Consistent fs) (mode g : Nat) : BitsGrow fs (extAllocInodePass fs mode g).1 := by
  rcases extAllocInodePass_cases fs mode g with ⟨-, h⟩ | ⟨bit, hbit, -, -, -, h⟩
  · rw [h]
    exact (extInitInodeBitmapLocked_agree hc g).grow
  · have hg := lt_groupCount_of_inodes hc (by omega : 0 < extGroupInodesCount fs.layout g)
    rw [h]
    exact (extInitInodeBitmapLocked_agree hc g).grow.trans
      (commitInode_grow (hc.extInitInodeBitmapLocked g) (by simpa using hg))

theorem extAllocInodeLocked_grow (hc : Consistent fs) (mode : Nat) : BitsGrow fs (extAllocInodeLocked fs mode).1 := by
  have hloop : ∀ (groups : List Nat) {fs : ExtFs}, Consistent fs → BitsGrow fs (extAllocInodeLoop mode fs groups).1 := by
    intro groups
    induction groups with
    | nil => exact fun {fs} _ => (BitsAgree.refl fs).grow
    | cons g groups ih =>
      intro fs hc
      rw [extAllocInodeLoop_cons]
      dsimp only
      split
      · exact extAllocInodePass_grow hc mode g
      · exact (extAllocInodePass_grow hc mode g).trans (ih (hc.extAllocInodePass mode g))
  unfold Naos.Ext.extAllocInodeLocked
  dsimp only
  split <;> exact hloop _ hc

/-- a free of a block clears its own bit at most: every other bit of the block bitmaps stays set -/
theorem extFreeBlockLocked_blockBit (hc : Consistent fs) (block : Nat) {g j : Nat} (hg : g < fs.layout.groupCount)
    (hne : block ≠ extGroupFirstBlock fs.layout g + j) (hset : testBit (fs.blockBitmapOf g) j = true) :
    testBit ((extFreeBlockLocked fs block).1.blockBitmapOf g) j = true := by
  unfold Naos.Ext.extFreeBlockLocked
  dsimp only
  split
  · exact hset
  rename_i hout
  obtain ⟨hg', -, hfirst⟩ := blockGroup_spec hc.layout block (by omega) (by omega)
  rw [show (block - fs.layout.firstDataBlock) / fs.layout.blocksPerGroup = blockGroup fs.layout block from rfl,
    show (block - fs.layout.firstDataBlock) % fs.layout.blocksPerGroup = blockBit fs.layout block from rfl]
  simp only [ExtFs.blockBitmapOf, setGroup_disk, writeBlock_disk, setGroup_layout, writeBlock_layout]
  by_cases hgg : g = blockGroup fs.layout block
  · subst hgg
    have hjb : j ≠ blockBit fs.layout block := fun h => hne (by rw [h, hfirst])
    rw [Function.update_self, show fs.disk (fs.layout.blockBitmap (blockGroup fs.layout block)) =
      fs.blockBitmapOf (blockGroup fs.layout block) from rfl, testBit_freeBitmap, decide_eq_false hjb, Bool.not_false,
      Bool.true_and, hset, Bool.true_or, Bool.true_or]
  · rw [Function.update_of_ne fun h => hgg (hc.layout.blockBitmap_inj g hg _ hg' h)]
    exact hset

theorem extFreeBlockLocked_inodeBitmapOf (hc : Consistent fs) (block : Nat) {g : Nat} (hg : g < fs.layout.groupCount) :
    (extFreeBlockLocked fs block).1.inodeBitmapOf g = fs.inodeBitmapOf g := by
  unfold Naos.Ext.extFreeBlockLocked
  dsimp only
  split
  · rfl
  rename_i hout
  obtain ⟨hg', -, -⟩ := blockGroup_spec hc.layout block (by omega) (by omega)
  simp only [ExtFs.inodeBitmapOf, setGroup_disk, writeBlock_disk, setGroup_layout, writeBlock_layout]
  exact Function.update_of_ne (fun h => hc.layout.block_ne_inode _ hg' g hg h.symm) _ _

/-- a free of an inode clears its own bit at most: every other bit of the inode bitmaps stays set -/
theorem extFreeInodeLocked_inodeBit (hc : Consistent fs) (ino : Nat) (isDir : Bool) {g j : Nat}
    (hg : g < fs.layout.groupCount) (hne : ino ≠ extGroupInodeStart fs.layout g + j)
    (hset : testBit (fs.inodeBitmapOf g) j = true) :
    testBit ((extFreeInodeLocked fs ino isDir).1.inodeBitmapOf g) j = true := by
  unfold Naos.Ext.extFreeInodeLocked
  dsimp only
  split
  · exact hset
  rename_i hout
  obtain ⟨hg', -, hstart⟩ := inodeGroup_spec hc.layout ino (by omega) (by omega)
  rw [show (ino - 1) / fs.layout.inodesPerGroup = inodeGroup fs.layout ino from rfl,
    show (ino - 1) % fs.layout.inodesPerGroup = inodeBit fs.layout ino from rfl]
  simp only [ExtFs.inodeBitmapOf, setGroup_disk, writeBlock_disk, setGroup_layout, writeBlock_layout]
  by_cases hgg : g = inodeGroup fs.layout ino
  · subst hgg
    have hjb : j ≠ inodeBit fs.layout ino := fun h => hne (by rw [h, hstart])
    rw [Function.update_self, show fs.disk (fs.layout.inodeBitmap (inodeGroup fs.layout ino)) =
      fs.inodeBitmapOf (inodeGroup fs.layout ino) from rfl, testBit_extBitmapSetPadding, testBit_clearBit,
      decide_eq_false hjb, Bool.not_false, Bool.true_and, hset, Bool.true_or]
  · rw [Function.update_of_ne fun h => hgg (hc.layout.inodeBitmap_inj g hg _ hg' h)]
    exact hset

theorem extFreeInodeLocked_blockBitmapOf (hc : Consistent fs) (ino : Nat) (isDir : Bool) {g : Nat}
    (hg : g < fs.layout.groupCount) : (extFreeInodeLocked fs ino isDir).1.blockBitmapOf g = fs.blockBitmapOf g := by
  unfold Naos.Ext.extFreeInodeLocked
  dsimp only
  split
  · rfl
  rename_i hout
  obtain ⟨hg', -, -⟩ := inodeGroup_spec hc.layout ino (by omega) (by omega)
  simp only [ExtFs.blockBitmapOf, setGroup_disk, writeBlock_disk, setGroup_layout, writeBlock_layout]
  exact Function.update_of_ne (fun h => hc.layout.block_ne_inode g hg _ hg' h) _ _

@[simp] theorem extFreeBlockLocked_layout (block : Nat) : (extFreeBlockLocked fs block).1.layout = fs.layout := by
  unfold Naos.Ext.extFreeBlockLocked
  dsimp only
  split <;> rfl

@[simp] theorem extFreeInodeLocked_layout (ino : Nat) (isDir : Bool) :
    (extFreeInodeLocked fs ino isDir).1.layout = fs.layout := by
  unfold Naos.Ext.extFreeInodeLocked
  dsimp only
  split <;> rfl

end Grow

/-! ## Runs of calls -/

/-- the allocator calls -/
inductive ExtOp where
  | allocBlocks (preferGroup want goal : Nat)
  | freeBlock (block : Nat)
  | allocInode (mode : Nat)
  | freeInode (ino : Nat) (isDir : Bool)
  deriving DecidableEq, Repr

/-- the file system after a call -/
def extStep (fs : ExtFs) : ExtOp → ExtFs
  | .allocBlocks preferGroup want goal => (extAllocBlocksLocked fs preferGroup want goal).1
  | .freeBlock block => (extFreeBlockLocked fs block).1
  | .allocInode mode => (extAllocInodeLocked fs mode).1
  | .freeInode ino isDir => (extFreeInodeLocked fs ino isDir).1

/-- the file system after a sequence of calls -/
def extRun : ExtFs → List ExtOp → ExtFs
  | fs, [] => fs
  | fs, op :: ops => extRun (extStep fs op) ops

/-- the call hands out block `b`: it is an allocation whose run holds `b` -/
def HandsOutBlock (fs : ExtFs) : ExtOp → Nat → Prop
  | .allocBlocks preferGroup want goal, b =>
    ∃ b₀ n, (extAllocBlocksLocked fs preferGroup want goal).2 = .ok (b₀, n) ∧ b₀ ≤ b ∧ b < b₀ + n
  | _, _ => False

/-- the call hands out inode `ino` -/
def HandsOutInode (fs : ExtFs) : ExtOp → Nat → Prop
  | .allocInode mode, ino => (extAllocInodeLocked fs mode).2 = .ok ino
  | _, _ => False

section Runs

variable {fs : ExtFs}

theorem extRun_append (fs : ExtFs) (ops ops' : List ExtOp) : extRun fs (ops ++ ops') = extRun (extRun fs ops) ops' := by
  induction ops generalizing fs with
  | nil => rfl
  | cons op ops ih => exact ih (extStep fs op)

theorem Consistent.extStep (hc : Consistent fs) (op : ExtOp) : Consistent (extStep fs op) := by
  cases op with
  | allocBlocks preferGroup want goal => exact hc.extAllocBlocksLocked preferGroup want goal
  | freeBlock block => exact hc.extFreeBlockLocked block
  | allocInode mode => exact hc.extAllocInodeLocked mode
  | freeInode ino isDir => exact hc.extFreeInodeLocked ino isDir

theorem Consistent.extRun (hc : Consistent fs) (ops : List ExtOp) : Consistent (extRun fs ops) := by
  induction ops generalizing fs with
  | nil => exact hc
  | cons op ops ih => exact ih (hc.extStep op)

theorem extStep_layout (hc : Consistent fs) (op : ExtOp) : (extStep fs op).layout = fs.layout := by
  cases op with
  | allocBlocks preferGroup want goal => exact (extAllocBlocksLocked_grow hc preferGroup want goal).layout
  | freeBlock block => exact extFreeBlockLocked_layout block
  | allocInode mode => exact (extAllocInodeLocked_grow hc mode).layout
  | freeInode ino isDir => exact extFreeInodeLocked_layout ino isDir

theorem extRun_layout (hc : Consistent fs) (ops : List ExtOp) : (extRun fs ops).layout = fs.layout := by
  induction ops generalizing fs with
  | nil => rfl
  | cons op ops ih => exact (ih (hc.extStep op)).trans (extStep_layout hc op)

/-- a set bit of a block bitmap stays set through every call but a free of its block -/
theorem extStep_blockBit (hc : Consistent fs) (op : ExtOp) {g j : Nat} (hg : g < fs.layout.groupCount)
    (hj : j < extGroupBlocksCount fs.layout g) (hop : op ≠ .freeBlock (extGroupFirstBlock fs.layout g + j))
    (hset : testBit (fs.blockBitmapOf g) j = true) : testBit ((extStep fs op).blockBitmapOf g) j = true := by
  have hjb : j < fs.layout.blockSize * 8 :=
    lt_of_lt_of_le hj ((extGroupBlocksCount_le fs.layout g).trans hc.layout.blocksPerGroup_le)
  cases op with
  | allocBlocks preferGroup want goal => exact (extAllocBlocksLocked_grow hc preferGroup want goal).blockBits g hg j hjb hset
  | freeBlock block => exact extFreeBlockLocked_blockBit hc block hg (fun h => hop (h ▸ rfl)) hset
  | allocInode mode => exact (extAllocInodeLocked_grow hc mode).blockBits g hg j hjb hset
  | freeInode ino isDir =>
    show testBit ((extFreeInodeLocked fs ino isDir).1.blockBitmapOf g) j = true
    rw [extFreeInodeLocked_blockBitmapOf hc ino isDir hg]
    exact hset

/-- a set bit of an inode bitmap stays set through every call but a free of its inode -/
theorem extStep_inodeBit (hc : Consistent fs) (op : ExtOp) {g j : Nat} (hg : g < fs.layout.groupCount)
    (hj : j < extGroupInodesCount fs.layout g) (hop : ∀ isDir, op ≠ .freeInode (extGroupInodeStart fs.layout g + j) isDir)
    (hset : testBit (fs.inodeBitmapOf g) j = true) : testBit ((extStep fs op).inodeBitmapOf g) j = true := by
  have hjb : j < fs.layout.blockSize * 8 :=
    lt_of_lt_of_le hj ((extGroupInodesCount_le fs.layout g).trans hc.layout.inodesPerGroup_le)
  cases op with
  | allocBlocks preferGroup want goal => exact (extAllocBlocksLocked_grow hc preferGroup want goal).inodeBits g hg j hjb hset
  | freeBlock block =>
    show testBit ((extFreeBlockLocked fs block).1.inodeBitmapOf g) j = true
    rw [extFreeBlockLocked_inodeBitmapOf hc block hg]
    exact hset
  | allocInode mode => exact (extAllocInodeLocked_grow hc mode).inodeBits g hg j hjb hset
  | freeInode ino isDir => exact extFreeInodeLocked_inodeBit hc ino isDir hg (fun h => hop isDir (h ▸ rfl)) hset

theorem extRun_blockBit (hc : Consistent fs) (ops : List ExtOp) {g j : Nat} (hg : g < fs.layout.groupCount)
    (hj : j < extGroupBlocksCount fs.layout g) (hops : ExtOp.freeBlock (extGroupFirstBlock fs.layout g + j) ∉ ops)
    (hset : testBit (fs.blockBitmapOf g) j = true) : testBit ((extRun fs ops).blockBitmapOf g) j = true := by
  induction ops generalizing fs with
  | nil => exact hset
  | cons op ops ih =>
    have hL := extStep_layout hc op
    rw [List.mem_cons, not_or] at hops
    exact ih (hc.extStep op) (hL ▸ hg) (hL ▸ hj) (hL ▸ hops.2)
      (extStep_blockBit hc op hg hj (Ne.symm hops.1) hset)

theorem extRun_inodeBit (hc : Consistent fs) (ops : List ExtOp) {g j : Nat} (hg : g < fs.layout.groupCount)
    (hj : j < extGroupInodesCount fs.layout g)
    (hops : ∀ isDir, ExtOp.freeInode (extGroupInodeStart fs.layout g + j) isDir ∉ ops)
    (hset : testBit (fs.inodeBitmapOf g) j = true) : testBit ((extRun fs ops).inodeBitmapOf g) j = true := by
  induction ops generalizing fs with
  | nil => exact hset
  | cons op ops ih =>
    have hL := extStep_layout hc op
    have hnot : ∀ isDir, op ≠ .freeInode (extGroupInodeStart fs.layout g + j) isDir ∧
        ExtOp.freeInode (extGroupInodeStart fs.layout g + j) isDir ∉ ops := fun isDir => by
      have := hops isDir
      rw [List.mem_cons, not_or] at this
      exact ⟨Ne.symm this.1, this.2⟩
    exact ih (hc.extStep op) (hL ▸ hg) (hL ▸ hj) (fun isDir => hL ▸ (hnot isDir).2)
      (extStep_inodeBit hc op hg hj (fun isDir => (hnot isDir).1) hset)

end Runs

/-! ## No double allocation -/

section NoDoubleAlloc

variable {fs : ExtFs}

/-- a block is handed out a second time only after a free of it: between two allocations that return it, some call
frees it -/
theorem extRun_no_double_alloc (hc : Consistent fs) (pre mid : List ExtOp) (op₁ op₂ : ExtOp) {b : Nat}
    (h₁ : HandsOutBlock (extRun fs pre) op₁ b) (h₂ : HandsOutBlock (extRun fs (pre ++ op₁ :: mid)) op₂ b) :
    ExtOp.freeBlock b ∈ mid := by
  have hc₁ := hc.extRun pre
  rw [extRun_append] at h₂
  set s₁ := extRun fs pre
  cases op₁ with
  | freeBlock => cases h₁
  | allocInode => cases h₁
  | freeInode => cases h₁
  | allocBlocks preferGroup want goal =>
    obtain ⟨b₀, n, hok, hlo, hhi⟩ := h₁
    obtain ⟨g, bit, hg, hb₀, -, -, hrun, -, -, hbits⟩ := extAllocBlocksLocked_run hc₁ hok
    have hset := (hbits (b - b₀) (by omega)).2.1
    have hj : bit + (b - b₀) < extGroupBlocksCount s₁.layout g := by omega
    have hb : extGroupFirstBlock s₁.layout g + (bit + (b - b₀)) = b := by omega
    have hc₂ := hc₁.extStep (.allocBlocks preferGroup want goal)
    have hL₂ := extStep_layout hc₁ (.allocBlocks preferGroup want goal)
    by_contra hfree
    have hkept := extRun_blockBit hc₂ mid (hL₂ ▸ hg) (hL₂ ▸ hj) (by rw [hL₂, hb]; exact hfree) hset
    cases op₂ with
    | freeBlock => cases h₂
    | allocInode => cases h₂
    | freeInode => cases h₂
    | allocBlocks preferGroup' want' goal' =>
      obtain ⟨b₀', n', hok', hlo', hhi'⟩ := h₂
      have hc₃ := hc₂.extRun mid
      have hL₃ := (extRun_layout hc₂ mid).trans hL₂
      obtain ⟨g', bit', -, hb₀', -, -, hrun', -, -, hbits'⟩ := extAllocBlocksLocked_run hc₃ hok'
      have hclear := (hbits' (b - b₀') (by omega)).1
      have hj' : bit' + (b - b₀') < extGroupBlocksCount s₁.layout g' := by rw [← hL₃]; omega
      have hb' : extGroupFirstBlock s₁.layout g' + (bit' + (b - b₀')) = b := by rw [← hL₃]; omega
      obtain ⟨hg₁, hbit₁⟩ := blockGroup_first hc₁.layout hj
      obtain ⟨hg₂, hbit₂⟩ := blockGroup_first hc₁.layout hj'
      rw [hb] at hg₁ hbit₁
      rw [hb'] at hg₂ hbit₂
      rw [hg₁.symm.trans hg₂, hbit₁.symm.trans hbit₂, hclear] at hkept
      exact Bool.false_ne_true hkept

/-- an inode is handed out a second time only after a free of it -/
theorem extRun_no_double_alloc_inode (hc : Consistent fs) (pre mid : List ExtOp) (op₁ op₂ : ExtOp) {ino : Nat}
    (h₁ : HandsOutInode (extRun fs pre) op₁ ino) (h₂ : HandsOutInode (extRun fs (pre ++ op₁ :: mid)) op₂ ino) :
    ∃ isDir, ExtOp.freeInode ino isDir ∈ mid := by
  have hc₁ := hc.extRun pre
  rw [extRun_append] at h₂
  set s₁ := extRun fs pre
  cases op₁ with
  | allocBlocks => cases h₁
  | freeBlock => cases h₁
  | freeInode => cases h₁
  | allocInode mode =>
    obtain ⟨g, bit, hg, hbit, hino, -, -, -, hset⟩ := extAllocInodeLocked_ino hc₁ h₁
    have hc₂ := hc₁.extStep (.allocInode mode)
    have hL₂ := extStep_layout hc₁ (.allocInode mode)
    by_contra hfree
    rw [not_exists] at hfree
    have hkept := extRun_inodeBit hc₂ mid (hL₂ ▸ hg) (hL₂ ▸ hbit) (fun isDir => by rw [hL₂, ← hino]; exact hfree isDir)
      hset
    cases op₂ with
    | allocBlocks => cases h₂
    | freeBlock => cases h₂
    | freeInode => cases h₂
    | allocInode mode' =>
      have hc₃ := hc₂.extRun mid
      have hL₃ := (extRun_layout hc₂ mid).trans hL₂
      obtain ⟨g', bit', -, hbit', hino', -, -, hclear, -⟩ := extAllocInodeLocked_ino hc₃ h₂
      rw [hL₃] at hbit' hino'
      obtain ⟨hg₁, hbit₁⟩ := inodeGroup_start hc₁.layout hbit
      obtain ⟨hg₂, hbit₂⟩ := inodeGroup_start hc₁.layout hbit'
      rw [← hino] at hg₁ hbit₁
      rw [← hino'] at hg₂ hbit₂
      rw [hg₁.symm.trans hg₂, hbit₁.symm.trans hbit₂, hclear] at hkept
      exact Bool.false_ne_true hkept

end NoDoubleAlloc

/-! ## The contract -/

/-- what the allocators promise from a consistent file system on: along every run of calls the invariant holds, an
allocation returns a run or an inode as `ext_alloc_blocks_locked` and `ext_alloc_inode_locked` promise, freeing a
metadata block or a free block changes nothing, and nothing is handed out twice without a free in between -/
structure AllocContract (fs : ExtFs) : Prop where
  consistent : ∀ ops, Consistent (extRun fs ops)
  allocBlocks : ∀ ops preferGroup want goal b n,
    (extAllocBlocksLocked (extRun fs ops) preferGroup want goal).2 = .ok (b, n) →
    ∃ g bit, g < fs.layout.groupCount ∧ b = extGroupFirstBlock fs.layout g + bit ∧ 0 < n ∧ n ≤ want ∧
      bit + n ≤ extGroupBlocksCount fs.layout g ∧ fs.layout.firstDataBlock ≤ b ∧ b + n ≤ fs.layout.blocksCount ∧
      ∀ k < n, testBit ((extRun fs ops).blockBitmapOf g) (bit + k) = false ∧
        testBit ((extAllocBlocksLocked (extRun fs ops) preferGroup want goal).1.blockBitmapOf g) (bit + k) = true ∧
        (extAllocBlocksLocked (extRun fs ops) preferGroup want goal).1.disk (b + k) = empty
  allocInode : ∀ ops mode ino, (extAllocInodeLocked (extRun fs ops) mode).2 = .ok ino →
    ∃ g bit, g < fs.layout.groupCount ∧ bit < extGroupInodesCount fs.layout g ∧
      ino = extGroupInodeStart fs.layout g + bit ∧ extFirstNonreservedInode fs.layout ≤ ino ∧
      ino ≤ fs.layout.inodesCount ∧ testBit ((extRun fs ops).inodeBitmapOf g) bit = false ∧
      testBit ((extAllocInodeLocked (extRun fs ops) mode).1.inodeBitmapOf g) bit = true
  freeBlockNoop : ∀ ops block, fs.layout.firstDataBlock ≤ block → block < fs.layout.blocksCount →
    (IsMetaBit fs.layout (blockGroup fs.layout block) (blockBit fs.layout block) ∨
      testBit ((extRun fs ops).blockBitmapOf (blockGroup fs.layout block)) (blockBit fs.layout block) = false) →
    extFreeBlockLocked (extRun fs ops) block = (extRun fs ops, 0)
  noDoubleBlock : ∀ pre mid op₁ op₂ b, HandsOutBlock (extRun fs pre) op₁ b →
    HandsOutBlock (extRun fs (pre ++ op₁ :: mid)) op₂ b → ExtOp.freeBlock b ∈ mid
  noDoubleInode : ∀ pre mid op₁ op₂ ino, HandsOutInode (extRun fs pre) op₁ ino →
    HandsOutInode (extRun fs (pre ++ op₁ :: mid)) op₂ ino → ∃ isDir, ExtOp.freeInode ino isDir ∈ mid

theorem extRun_contract {fs : ExtFs} (hc : Consistent fs) : AllocContract fs := by
  refine ⟨hc.extRun, fun ops preferGroup want goal b n h => ?_, fun ops mode ino h => ?_,
    fun ops block hlo hhi h => ?_, fun pre mid op₁ op₂ b h₁ h₂ => extRun_no_double_alloc hc pre mid op₁ op₂ h₁ h₂,
    fun pre mid op₁ op₂ ino h₁ h₂ => extRun_no_double_alloc_inode hc pre mid op₁ op₂ h₁ h₂⟩
  · have hrun := extAllocBlocksLocked_run (hc.extRun ops) h
    rw [extRun_layout hc ops] at hrun
    exact hrun
  · have hino := extAllocInodeLocked_ino (hc.extRun ops) h
    rw [extRun_layout hc ops] at hino
    exact hino
  · rw [← extRun_layout hc ops] at hlo hhi h
    exact extFreeBlockLocked_noop (hc.extRun ops) hlo hhi h

/-- one group of 8192 blocks of 1 KiB and 8192 inodes, its bitmaps and inode table after the superblock and the
descriptor block -/
def sampleLayout : Layout where
  blockSize := 1024
  firstDataBlock := 1
  blocksPerGroup := 8192
  inodesPerGroup := 8192
  firstIno := 11
  reservedGdtBlocks := 0
  sparseSuper := true
  inodeSize := 128
  descSize := 32
  blocksCount := 8193
  inodesCount := 8192
  groupCount := 1
  blockBitmap := fun _ => 3
  inodeBitmap := fun _ => 4
  inodeTable := fun _ => 5

/-- every block in use but the last one, and the first eleven inodes in use -/
def sampleFs : ExtFs where
  layout := sampleLayout
  groups := fun _ => ⟨1, 8181, 2, false, false, true⟩
  freeBlocksCount := 1
  freeInodesCount := 8181
  disk := fun b => if b = 3 then clearBit full 8191 else if b = 4 then setRange empty 0 11 else empty

theorem sampleFs_consistent : Consistent sampleFs := by
  have hbc : extGroupBlocksCount sampleFs.layout 0 = 8192 := by decide
  have hic : extGroupInodesCount sampleFs.layout 0 = 8192 := by decide
  have hbits : sampleFs.layout.blockSize * 8 = 8192 := rfl
  have hbb : sampleFs.blockBitmapOf 0 = clearBit full 8191 := rfl
  have hib : sampleFs.inodeBitmapOf 0 = setRange empty 0 11 := rfl
  have hlast : ¬ IsMetaBit sampleFs.layout 0 8191 := by decide +kernel
  have hblocks : countFree (clearBit full 8191) 8192 = 1 := by
    rw [countFree_clearBit (by decide) (testBit_full _), countFree_full]
  have hinodes : countFree (setRange empty 0 11) 8192 = 8181 := by
    have hset := countFree_setRange (b := empty) (by decide : 0 + 11 ≤ 8192) fun k _ => testBit_empty _
    rw [countFree_empty] at hset
    omega
  refine ⟨⟨by decide, by decide, by decide, by decide, by decide, by decide, fun _ _ _ _ => (by decide : (3 : Nat) ≠ 4),
    fun g hg g' hg' _ => by simp only [sampleFs, sampleLayout] at hg hg'; omega,
    fun g hg g' hg' _ => by simp only [sampleFs, sampleLayout] at hg hg'; omega⟩,
    fun g hg => ?_, fun g hg => ?_, fun g hg j hj => ?_, fun g hg j hlo hhi => ?_, fun g hg j hlo hhi => ?_,
    fun _ _ hu => absurd hu Bool.false_ne_true, fun _ _ hu => absurd hu Bool.false_ne_true, fun _ => rfl, rfl, rfl⟩
  all_goals obtain rfl : g = 0 := Nat.lt_one_iff.1 hg
  · rw [hbb, hbc]
    exact hblocks.symm
  · rw [hib, hic]
    exact hinodes.symm
  · have hne : j ≠ 8191 := fun h => hlast (h ▸ hj)
    rw [hbb, testBit_clearBit, testBit_full, decide_eq_false hne]
    rfl
  · omega
  · omega

theorem extRun_contract_sample : Consistent sampleFs ∧ AllocContract sampleFs :=
  ⟨sampleFs_consistent, extRun_contract sampleFs_consistent⟩

/-! ## A reserved inode freed in an uninitialised group 0 -/

/-- the geometry checks of `ext_mount_prepare_locked` on the superblock, each the negation of one of its `-EINVAL`
returns: `block_size` is `1024 << s_log_block_size` with `s_log_block_size ≤ 2`, the inode and descriptor sizes are
the defaulted ones, and the layout's `group_count` is the one the mount computes -/
def extMountPrepareChecks (L : Layout) (has64bit : Bool) : Bool :=
  let groupCount := (L.blocksCount - L.firstDataBlock + L.blocksPerGroup - 1) / L.blocksPerGroup % 2 ^ 32
  decide ((L.blockSize = 1024 ∨ L.blockSize = 2048 ∨ L.blockSize = 4096) ∧
    ¬(L.blockSize < 1024 ∨ L.blockSize > EXT_MAX_BLOCK_SIZE) ∧
    ¬(L.inodeSize < EXT2_GOOD_OLD_INODE_SIZE ∨ L.inodeSize > L.blockSize ∨ L.inodeSize % 4 ≠ 0) ∧
    ¬(L.blockSize % L.inodeSize ≠ 0) ∧
    ¬(L.descSize < 32 ∨ L.descSize > L.blockSize ∨ L.descSize % 4 ≠ 0) ∧
    ¬(has64bit = false ∧ L.descSize ≠ 32) ∧
    ¬(L.blocksPerGroup = 0 ∨ L.inodesPerGroup = 0) ∧
    ¬(L.blocksCount = 0 ∨ L.firstDataBlock ≥ L.blocksCount) ∧
    ¬(L.inodesCount = 0) ∧
    ¬(L.blocksPerGroup > L.blockSize * 8 ∨ L.inodesPerGroup > L.blockSize * 8) ∧
    ¬(L.inodesCount > UINT32_MAX ∨ L.inodesPerGroup > UINT32_MAX) ∧
    ¬(L.inodesPerGroup ≠ 0 ∧ L.inodesCount % L.inodesPerGroup ≠ 0) ∧
    L.groupCount = groupCount ∧ ¬(groupCount = 0) ∧ ¬(groupCount > UINT32_MAX / 64))

/-- two groups of eight 1 KiB blocks and eight 128-byte inodes, so that group 0 holds the reserved inodes 1 to 8
only; the bitmaps and inode tables follow the superblock and the descriptor block -/
def reservedGroupLayout : Layout where
  blockSize := 1024
  firstDataBlock := 1
  blocksPerGroup := 8
  inodesPerGroup := 8
  firstIno := 11
  reservedGdtBlocks := 0
  sparseSuper := true
  inodeSize := 128
  descSize := 32
  blocksCount := 17
  inodesCount := 16
  groupCount := 2
  blockBitmap := fun g => 3 + g
  inodeBitmap := fun g => 5 + g
  inodeTable := fun g => 7 + g

/-- every inode of group 0 is reserved -/
theorem reservedGroupLayout_zero_reserved :
    extGroupInodesCount reservedGroupLayout 0 ≤ extGroupReservedInodeCount reservedGroupLayout 0 := by
  decide

/-- group 0 still marked `EXT4_BG_INODE_UNINIT`, its bitmap the one the lazy initialisation writes; group 1
initialised with all its inodes free; no free block -/
def uninitGroupZero : ExtFs where
  layout := reservedGroupLayout
  groups := fun g => if g = 0 then ⟨0, 0, 0, false, true, false⟩ else ⟨0, 8, 0, false, false, true⟩
  freeBlocksCount := 0
  freeInodesCount := 8
  disk := fun b =>
    if b = 5 then impliedInodeBitmap reservedGroupLayout 0
    else if b = 6 then extBitmapSetPadding reservedGroupLayout empty 8 else full

theorem uninitGroupZero_layout : uninitGroupZero.layout = reservedGroupLayout := rfl

theorem uninitGroupZero_disk_five : uninitGroupZero.disk 5 = impliedInodeBitmap reservedGroupLayout 0 := by
  unfold uninitGroupZero
  dsimp only
  rw [if_pos rfl]

theorem uninitGroupZero_disk_six : uninitGroupZero.disk 6 = extBitmapSetPadding reservedGroupLayout empty 8 := by
  unfold uninitGroupZero
  dsimp only
  rw [if_neg (by decide), if_pos rfl]

theorem uninitGroupZero_disk_of_ne {b : Nat} (h5 : b ≠ 5) (h6 : b ≠ 6) : uninitGroupZero.disk b = full := by
  unfold uninitGroupZero
  dsimp only
  rw [if_neg h5, if_neg h6]

/-- on this layout, an allocation that meets group 0 uninitialised and group 1 initialised and empty writes the
lazily initialised bitmap of group 0, which has no free inode, leaves the count of group 0 as it was, and takes
inode 11, the third of group 1 -/
theorem allocInode_skips_reserved_group {fs : ExtFs} (hL : fs.layout = reservedGroupLayout)
    (hu₀ : (fs.groups 0).inodeUninit = true) (hu₁ : (fs.groups 1).inodeUninit = false)
    (hd₆ : fs.disk 6 = extBitmapSetPadding reservedGroupLayout empty 8) :
    extAllocInodeLocked fs 0x8000 = (commitInode (extInitInodeBitmapLocked fs 0) 0x8000 1 2, .ok 11) ∧
      ((extInitInodeBitmapLocked fs 0).groups 0).freeInodes = (fs.groups 0).freeInodes ∧
      (extInitInodeBitmapLocked fs 0).inodeBitmapOf 0 = impliedInodeBitmap reservedGroupLayout 0 := by
  have hN : ∀ g < 2, extGroupInodesCount reservedGroupLayout g = 8 := by decide
  have hres := reservedGroupLayout_zero_reserved
  have hB : reservedGroupLayout.inodeBitmap = fun g => 5 + g := rfl
  have hinit := extInitInodeBitmapLocked_of_uninit (by rw [hL]; decide) hu₀
  obtain ⟨fs₂, hfs₂⟩ : ∃ fs₂, extInitInodeBitmapLocked fs 0 = fs₂ := ⟨_, rfl⟩
  have hL₂ : fs₂.layout = reservedGroupLayout := by rw [← hfs₂, extInitInodeBitmapLocked_layout, hL]
  have hG₂ : (fs₂.groups 1).inodeUninit = false := by simp [← hfs₂, hinit, hu₁]
  have hD₂ : fs₂.inodeBitmapOf 0 = impliedInodeBitmap reservedGroupLayout 0 := by
    simp [← hfs₂, hinit, ExtFs.inodeBitmapOf, hL]
  have hD₂' : fs₂.inodeBitmapOf 1 = extBitmapSetPadding reservedGroupLayout empty 8 := by
    simp [← hfs₂, hinit, ExtFs.inodeBitmapOf, hL, hB, hd₆]
  have hpass₀ : extAllocInodePass fs 0x8000 0 = (fs₂, none) := by
    rw [extAllocInodePass_of_full, hfs₂]
    rw [hfs₂, inodePassBitmap, hD₂, hL₂, hL, countFree_extBitmapSetPadding _ le_rfl,
      countFree_impliedInodeBitmap_reserved hres (by decide)]
  have hclear : ∀ j < 8, testBit (inodePassBitmap fs₂ 1) j = false := by
    intro j hj
    simp [inodePassBitmap, hD₂', hL₂, testBit_extBitmapSetPadding, hN 1 (by decide)]
    omega
  have hpass₁ : extAllocInodePass fs₂ 0x8000 1 = (commitInode fs₂ 0x8000 1 2, some 11) := by
    have hfirst := @extAllocInodePass_of_first fs₂ 0x8000 1 2
      (by rw [hL₂, hN 1 (by decide)]; decide) (by rw [hL₂]; decide)
      (by rw [extInitInodeBitmapLocked_of_init hG₂]; exact hclear 2 (by decide))
      (fun j hj => .inl (by rw [hL₂]; simp [extGroupInodeStart, extFirstNonreservedInode, reservedGroupLayout]; omega))
    rwa [extInitInodeBitmapLocked_of_init hG₂, hL₂] at hfirst
  rw [hfs₂]
  refine ⟨?_, by simp [← hfs₂, hinit], hD₂⟩
  rw [extAllocInodeLocked, hL, show List.range reservedGroupLayout.groupCount = [0, 1] from rfl,
    extAllocInodeLoop_cons, hpass₀]
  dsimp only
  rw [extAllocInodeLoop_cons, hpass₁]

/-- on this layout, from any file system whose group 0 is uninitialised with the bitmap it stands for: freeing the
reserved inode 1 succeeds and counts it free, and the next allocation writes the lazily initialised bitmap over the
cleared bit without counting again, finds group 0 full and takes inode 11 of group 1. The file systems are kept
abstract so that no proof step evaluates a bitmap. -/
theorem freeInode_reserved_desyncs {fs : ExtFs} (hL : fs.layout = reservedGroupLayout)
    (hu₀ : (fs.groups 0).inodeUninit = true) (hu₁ : (fs.groups 1).inodeUninit = false)
    (hd₅ : fs.disk 5 = impliedInodeBitmap reservedGroupLayout 0)
    (hd₆ : fs.disk 6 = extBitmapSetPadding reservedGroupLayout empty 8) :
    (extFreeInodeLocked fs 1 false).2 = 0 ∧
    (extAllocInodeLocked (extStep fs (.freeInode 1 false)) 0x8000).2 = .ok 11 ∧
    ((extRun fs [.freeInode 1 false, .allocInode 0x8000]).groups 0).freeInodes = 1 ∧
    countFree ((extRun fs [.freeInode 1 false, .allocInode 0x8000]).inodeBitmapOf 0)
      (extGroupInodesCount reservedGroupLayout 0) = 0 := by
  have hres := reservedGroupLayout_zero_reserved
  have hI : reservedGroupLayout.inodesCount = 16 := rfl
  have hP : reservedGroupLayout.inodesPerGroup = 8 := rfl
  have hB : reservedGroupLayout.inodeBitmap = fun g => 5 + g := rfl
  have hfree : (extFreeInodeLocked fs 1 false).2 = 0 := by simp [extFreeInodeLocked, hL, hI]
  obtain ⟨fs₁, hfs₁⟩ : ∃ fs₁, (extFreeInodeLocked fs 1 false).1 = fs₁ := ⟨_, rfl⟩
  have hL₁ : fs₁.layout = reservedGroupLayout := by rw [← hfs₁, extFreeInodeLocked_layout, hL]
  have hC₁ : (fs₁.groups 0).freeInodes = 1 := by
    simp [← hfs₁, extFreeInodeLocked, hL, ExtFs.inodeBitmapOf, hB, hd₅, hI, hP]
    rw [countFree_extBitmapSetPadding _ le_rfl, countFree_clearBit (by decide)
      (testBit_impliedInodeBitmap_reserved hres (by decide)), countFree_impliedInodeBitmap_reserved hres (by decide)]
  have hU₁ : (fs₁.groups 0).inodeUninit = true := by simp [← hfs₁, extFreeInodeLocked, hL, hu₀, hI, hP]
  have hG₁ : (fs₁.groups 1).inodeUninit = false := by simp [← hfs₁, extFreeInodeLocked, hL, hu₁, hI, hP]
  have hD₁ : fs₁.disk 6 = extBitmapSetPadding reservedGroupLayout empty 8 := by
    simp [← hfs₁, extFreeInodeLocked, hL, hB, hd₆, hI, hP]
  obtain ⟨halloc, hC₂, hD₂⟩ := allocInode_skips_reserved_group hL₁ hU₁ hG₁ hD₁
  have hrun : extRun fs [.freeInode 1 false, .allocInode 0x8000] =
      commitInode (extInitInodeBitmapLocked fs₁ 0) 0x8000 1 2 := by
    simp only [extRun, extStep, hfs₁, halloc]
  refine ⟨hfree, by simp only [extStep, hfs₁, halloc], ?_, ?_⟩
  · rw [hrun, commitInode_groups_of_ne (by decide), hC₂, hC₁]
  · rw [hrun, commitInode_inodeBitmapOf_of_ne (by rw [extInitInodeBitmapLocked_layout, hL₁, hB]; decide), hD₂,
      countFree_impliedInodeBitmap_reserved hres (by decide)]

/-- a file system the mount accepts, whose counts agree with its bitmaps, in which a free and an allocation that
both succeed leave group 0 counting a free inode its bitmap does not have -/
theorem free_reserved_inode_desyncs :
    extMountPrepareChecks reservedGroupLayout false = true ∧
    (∀ g < 2, (uninitGroupZero.groups g).freeBlocks =
        countFree (uninitGroupZero.blockBitmapOf g) (extGroupBlocksCount reservedGroupLayout g) ∧
      (uninitGroupZero.groups g).freeInodes =
        countFree (uninitGroupZero.inodeBitmapOf g) (extGroupInodesCount reservedGroupLayout g)) ∧
    uninitGroupZero.freeBlocksCount = extGroupsFreeBlocksSum uninitGroupZero ∧
    uninitGroupZero.freeInodesCount = extGroupsFreeInodesSum uninitGroupZero ∧
    (extFreeInodeLocked uninitGroupZero 1 false).2 = 0 ∧
    (extAllocInodeLocked (extStep uninitGroupZero (.freeInode 1 false)) 0x8000).2 = .ok 11 ∧
    ((extRun uninitGroupZero [.freeInode 1 false, .allocInode 0x8000]).groups 0).freeInodes = 1 ∧
    countFree ((extRun uninitGroupZero [.freeInode 1 false, .allocInode 0x8000]).inodeBitmapOf 0)
      (extGroupInodesCount reservedGroupLayout 0) = 0 := by
  have hres := reservedGroupLayout_zero_reserved
  refine ⟨by decide, fun g hg => ?_, by decide, by decide,
    freeInode_reserved_desyncs uninitGroupZero_layout rfl rfl uninitGroupZero_disk_five uninitGroupZero_disk_six⟩
  obtain rfl | rfl : g = 0 ∨ g = 1 := by omega
  · refine ⟨?_, ?_⟩
    · rw [ExtFs.blockBitmapOf, uninitGroupZero_disk_of_ne (by decide) (by decide), countFree_full]
      rfl
    · rw [ExtFs.inodeBitmapOf, uninitGroupZero_layout, show reservedGroupLayout.inodeBitmap 0 = 5 from rfl,
        uninitGroupZero_disk_five, countFree_impliedInodeBitmap_reserved hres (by decide)]
      rfl
  · refine ⟨?_, ?_⟩
    · rw [ExtFs.blockBitmapOf, uninitGroupZero_disk_of_ne (by decide) (by decide), countFree_full]
      rfl
    · rw [ExtFs.inodeBitmapOf, uninitGroupZero_layout, show reservedGroupLayout.inodeBitmap 1 = 6 from rfl,
        uninitGroupZero_disk_six, show extGroupInodesCount reservedGroupLayout 1 = 8 by decide,
        countFree_extBitmapSetPadding _ le_rfl, countFree_empty]
      rfl

end Naos.Ext
