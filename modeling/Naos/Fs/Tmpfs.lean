/-
The tmpfs namespace of `fs/tmp.c`: directories of named entries, and link counts.

A tmpfs inode is an entry of an arena of inodes (`Fs.inodes`), indexed by the address of its `vfs_inode`; `live`
holds those allocated. A directory keeps its entries in `info->children`, in list order, each a name and the inode
it refers to. The operations take a dentry as its name and its inode, the parts tmpfs reads. Memory allocation and
the store of a symlink's target are the environment: a flag or a return code says how they end.
-/
import Mathlib

namespace Naos.Tmpfs

/-! ## Modes and errors -/

def S_IFMT : Nat := 0o170000
def S_IFLNK : Nat := 0o120000
def S_IFREG : Nat := 0o100000
def S_IFDIR : Nat := 0o040000

/-- `S_ISDIR(mode)` -/
def sIsDir (mode : Nat) : Bool := mode &&& S_IFMT == S_IFDIR

/-- `S_ISLNK(mode)` -/
def sIsLnk (mode : Nat) : Bool := mode &&& S_IFMT == S_IFLNK

def EPERM : Int := 1
def ENOENT : Int := 2
def ENOMEM : Int := 12
def EEXIST : Int := 17
def EXDEV : Int := 18
def ENOTDIR : Int := 20
def EISDIR : Int := 21
def EINVAL : Int := 22
def ENOTEMPTY : Int := 39
def EOPNOTSUPP : Int := 95

section Errno

@[simp] theorem EPERM_pos : 0 < EPERM := by decide
@[simp] theorem ENOENT_pos : 0 < ENOENT := by decide
@[simp] theorem ENOMEM_pos : 0 < ENOMEM := by decide
@[simp] theorem EEXIST_pos : 0 < EEXIST := by decide
@[simp] theorem EXDEV_pos : 0 < EXDEV := by decide
@[simp] theorem ENOTDIR_pos : 0 < ENOTDIR := by decide
@[simp] theorem EISDIR_pos : 0 < EISDIR := by decide
@[simp] theorem EINVAL_pos : 0 < EINVAL := by decide
@[simp] theorem ENOTEMPTY_pos : 0 < ENOTEMPTY := by decide

end Errno

def VFS_RENAME_NOREPLACE : Nat := 1
def VFS_RENAME_EXCHANGE : Nat := 2
def VFS_RENAME_WHITEOUT : Nat := 4

/-! ## The state -/

/-- `tmpfs_dirent_t` -/
structure Dirent where
  name : String
  inode : Nat
deriving Repr, DecidableEq

/-- the fields of a `vfs_inode` and its `tmpfs_inode_info_t` that the namespace reads -/
structure Inode where
  mode : Nat
  nlink : Nat
  sb : Nat
  children : List Dirent
deriving Repr, DecidableEq

/-- the inodes of the tmpfs instances, and the next free address -/
structure Fs where
  inodes : Nat → Inode
  live : Finset Nat
  nextId : Nat

/-- a write of one inode -/
def Fs.setInode (fs : Fs) (i : Nat) (v : Inode) : Fs := { fs with inodes := Function.update fs.inodes i v }

/-- a directory's entries replaced -/
def Fs.setChildren (fs : Fs) (d : Nat) (l : List Dirent) : Fs := fs.setInode d { fs.inodes d with children := l }

/-- an inode's link count replaced -/
def Fs.setNlink (fs : Fs) (i n : Nat) : Fs := fs.setInode i { fs.inodes i with nlink := n }

/-- `vfs_iput` of the last reference: the inode leaves the arena -/
def Fs.free (fs : Fs) (i : Nat) : Fs := { fs with live := fs.live.erase i }

section Fields

variable {fs : Fs} {i j d n : Nat} {v : Inode} {l : List Dirent}

@[simp] theorem setInode_live : (fs.setInode i v).live = fs.live := rfl
@[simp] theorem setInode_nextId : (fs.setInode i v).nextId = fs.nextId := rfl
@[simp] theorem setInode_inodes_self : (fs.setInode i v).inodes i = v := Function.update_self ..
theorem setInode_inodes_ne (h : j ≠ i) : (fs.setInode i v).inodes j = fs.inodes j := Function.update_of_ne h ..

@[simp] theorem setChildren_live : (fs.setChildren d l).live = fs.live := rfl
@[simp] theorem setChildren_nextId : (fs.setChildren d l).nextId = fs.nextId := rfl
@[simp] theorem setChildren_children_self : ((fs.setChildren d l).inodes d).children = l := by
  simp [Fs.setChildren]
theorem setChildren_inodes_ne (h : j ≠ d) : (fs.setChildren d l).inodes j = fs.inodes j := setInode_inodes_ne h
@[simp] theorem setChildren_mode : ((fs.setChildren d l).inodes j).mode = (fs.inodes j).mode := by
  by_cases h : j = d
  · subst h; simp [Fs.setChildren]
  · rw [setChildren_inodes_ne h]
@[simp] theorem setChildren_nlink : ((fs.setChildren d l).inodes j).nlink = (fs.inodes j).nlink := by
  by_cases h : j = d
  · subst h; simp [Fs.setChildren]
  · rw [setChildren_inodes_ne h]

@[simp] theorem setChildren_setChildren {l' : List Dirent} :
    (fs.setChildren d l).setChildren d l' = fs.setChildren d l' := by
  simp [Fs.setChildren, Fs.setInode]
@[simp] theorem setChildren_self : fs.setChildren d (fs.inodes d).children = fs := by
  simp [Fs.setChildren, Fs.setInode]
theorem setChildren_eq_self (h : (fs.inodes d).children = l) : fs.setChildren d l = fs := by
  subst h; exact setChildren_self

@[simp] theorem setNlink_live : (fs.setNlink i n).live = fs.live := rfl
@[simp] theorem setNlink_nextId : (fs.setNlink i n).nextId = fs.nextId := rfl
@[simp] theorem setNlink_nlink_self : ((fs.setNlink i n).inodes i).nlink = n := by simp [Fs.setNlink]
theorem setNlink_inodes_ne (h : j ≠ i) : (fs.setNlink i n).inodes j = fs.inodes j := setInode_inodes_ne h
@[simp] theorem setNlink_mode : ((fs.setNlink i n).inodes j).mode = (fs.inodes j).mode := by
  by_cases h : j = i
  · subst h; simp [Fs.setNlink]
  · rw [setNlink_inodes_ne h]
@[simp] theorem setNlink_children : ((fs.setNlink i n).inodes j).children = (fs.inodes j).children := by
  by_cases h : j = i
  · subst h; simp [Fs.setNlink]
  · rw [setNlink_inodes_ne h]

@[simp] theorem free_live : (fs.free i).live = fs.live.erase i := rfl
@[simp] theorem free_nextId : (fs.free i).nextId = fs.nextId := rfl
@[simp] theorem free_inodes : (fs.free i).inodes = fs.inodes := rfl

end Fields

/-! ## Entries -/

/-- `tmpfs_find_dirent_locked`: the first entry with the name -/
def tmpfsFindDirentLocked (children : List Dirent) (name : String) : Option Dirent :=
  children.find? (·.name = name)

/-- `tmpfs_find_dirent`: none unless `dir` is a directory -/
def tmpfsFindDirent (fs : Fs) (dir : Nat) (name : String) : Option Dirent :=
  if sIsDir (fs.inodes dir).mode then tmpfsFindDirentLocked (fs.inodes dir).children name else none

/-- `tmpfs_add_dirent`: `direntOk` says whether the entry and its name could be allocated -/
def tmpfsAddDirent (fs : Fs) (dir : Nat) (name : String) (inode : Nat) (direntOk : Bool) : Fs × Int :=
  if name = "" then (fs, -EINVAL)
  else if !direntOk then (fs, -ENOMEM)
  else if (tmpfsFindDirentLocked (fs.inodes dir).children name).isSome then (fs, -EEXIST)
  else (fs.setChildren dir ((fs.inodes dir).children ++ [⟨name, inode⟩]), 0)

/-- `tmpfs_detach_dirent`: the first entry with the name leaves the directory -/
def tmpfsDetachDirent (fs : Fs) (dir : Nat) (name : String) : Fs × Option Dirent :=
  match tmpfsFindDirentLocked (fs.inodes dir).children name with
  | none => (fs, none)
  | some de => (fs.setChildren dir ((fs.inodes dir).children.eraseP (·.name = name)), some de)

/-! ## Creating -/

/-- `tmpfs_new_inode`: a fresh inode of the directory's superblock, two links for a directory and one otherwise -/
def tmpfsNewInode (fs : Fs) (sb mode : Nat) : Fs × Nat :=
  let i := fs.nextId
  ({ inodes := Function.update fs.inodes i ⟨mode, if sIsDir mode then 2 else 1, sb, []⟩,
     live := insert i fs.live, nextId := i + 1 }, i)

section NewInode

variable {fs : Fs} {sb mode j : Nat}

@[simp] theorem tmpfsNewInode_snd : (tmpfsNewInode fs sb mode).2 = fs.nextId := rfl
@[simp] theorem tmpfsNewInode_live : (tmpfsNewInode fs sb mode).1.live = insert fs.nextId fs.live := rfl
@[simp] theorem tmpfsNewInode_nextId : (tmpfsNewInode fs sb mode).1.nextId = fs.nextId + 1 := rfl
@[simp] theorem tmpfsNewInode_inodes_self :
    (tmpfsNewInode fs sb mode).1.inodes fs.nextId = ⟨mode, if sIsDir mode then 2 else 1, sb, []⟩ :=
  Function.update_self ..
theorem tmpfsNewInode_inodes_ne (h : j ≠ fs.nextId) : (tmpfsNewInode fs sb mode).1.inodes j = fs.inodes j :=
  Function.update_of_ne h ..

end NewInode

/-- how the allocations of a create end: the inode, the entry, and the store of a symlink's target (0 or an
error) -/
structure CreateAlloc where
  inodeOk : Bool
  direntOk : Bool
  targetRet : Int

/-- `tmpfs_create_common` on a negative dentry named `name`, with the symlink target when there is one -/
def tmpfsCreateCommon (fs : Fs) (dir : Nat) (name : String) (mode : Nat) (target : Option String)
    (a : CreateAlloc) : Fs × Int :=
  if !sIsDir (fs.inodes dir).mode then (fs, -ENOTDIR)
  else if (tmpfsFindDirent fs dir name).isSome then (fs, -EEXIST)
  else if !a.inodeOk then (fs, -ENOMEM)
  else
    let (fs1, i) := tmpfsNewInode fs (fs.inodes dir).sb mode
    let (fs2, ret) := tmpfsAddDirent fs1 dir name i a.direntOk
    if ret < 0 then (fs2.free i, ret)
    else
      -- `dir->i_nlink++` for a new directory
      let fs3 := if sIsDir mode then fs2.setNlink dir ((fs2.inodes dir).nlink + 1) else fs2
      if sIsLnk mode ∧ target.isSome ∧ a.targetRet < 0 then
        -- the target could not be stored: the entry is detached and freed, and the inode with it
        ((tmpfsDetachDirent fs3 dir name).1.free i, a.targetRet)
      else (fs3, 0)

/-- `tmpfs_create` -/
def tmpfsCreate (fs : Fs) (dir : Nat) (name : String) (mode : Nat) (a : CreateAlloc) : Fs × Int :=
  tmpfsCreateCommon fs dir name (mode &&& 0o7777 ||| S_IFREG) none a

/-- `tmpfs_mkdir` -/
def tmpfsMkdir (fs : Fs) (dir : Nat) (name : String) (mode : Nat) (a : CreateAlloc) : Fs × Int :=
  tmpfsCreateCommon fs dir name (mode &&& 0o7777 ||| S_IFDIR) none a

/-- `tmpfs_mknod` -/
def tmpfsMknod (fs : Fs) (dir : Nat) (name : String) (mode : Nat) (a : CreateAlloc) : Fs × Int :=
  tmpfsCreateCommon fs dir name mode none a

/-- `tmpfs_symlink` -/
def tmpfsSymlink (fs : Fs) (dir : Nat) (name : String) (target : String) (a : CreateAlloc) : Fs × Int :=
  tmpfsCreateCommon fs dir name (S_IFLNK ||| 0o777) (some target) a

/-! ## Linking and removing -/

/-- `tmpfs_link`: a new entry `name` in `dir` for the inode of `old` -/
def tmpfsLink (fs : Fs) (old : Option Nat) (dir : Nat) (name : String) (direntOk : Bool) : Fs × Int :=
  match old with
  | none => (fs, -EINVAL)
  | some i =>
    if sIsDir (fs.inodes i).mode then (fs, -EPERM)
    else if (fs.inodes i).sb ≠ (fs.inodes dir).sb then (fs, -EXDEV)
    else
      let (fs1, ret) := tmpfsAddDirent fs dir name i direntOk
      if ret < 0 then (fs1, ret)
      else (fs1.setNlink i ((fs1.inodes i).nlink + 1), 0)

/-- `tmpfs_unlink` of the dentry `name` whose inode is `inode` -/
def tmpfsUnlink (fs : Fs) (dir : Nat) (name : String) (inode : Option Nat) : Fs × Int :=
  match inode with
  | none => (fs, -ENOENT)
  | some i =>
    if sIsDir (fs.inodes i).mode then (fs, -EISDIR)
    else
      match tmpfsDetachDirent fs dir name with
      | (fs1, none) => (fs1, -ENOENT)
      | (fs1, some de) =>
        -- `if (de->inode->i_nlink) de->inode->i_nlink--`
        (fs1.setNlink de.inode ((fs1.inodes de.inode).nlink - 1), 0)

/-- `tmpfs_rmdir` of the dentry `name` whose inode is `inode` -/
def tmpfsRmdir (fs : Fs) (dir : Nat) (name : String) (inode : Option Nat) : Fs × Int :=
  match inode with
  | none => (fs, -ENOTDIR)
  | some i =>
    if !sIsDir (fs.inodes i).mode then (fs, -ENOTDIR)
    else if (fs.inodes i).children ≠ [] then (fs, -ENOTEMPTY)
    else
      match tmpfsDetachDirent fs dir name with
      | (fs1, none) => (fs1, -ENOENT)
      | (fs1, some de) =>
        let fs2 := fs1.setNlink dir ((fs1.inodes dir).nlink - 1)
        -- `if (de->inode->i_nlink >= 2) de->inode->i_nlink -= 2`
        let n := (fs2.inodes de.inode).nlink
        (fs2.setNlink de.inode (if 2 ≤ n then n - 2 else n), 0)

/-! ## Renaming -/

/-- `tmpfs_rename`: the entry `oldName` of `oldDir` moves to `newDir` as `newName`, replacing an entry of that
name; `nameOk` says whether the new name could be copied. No link count changes. -/
def tmpfsRename (fs : Fs) (oldDir : Nat) (oldName : String) (newDir : Nat) (newName : String) (flags : Nat)
    (nameOk : Bool) : Fs × Int :=
  if flags &&& (VFS_RENAME_EXCHANGE ||| VFS_RENAME_WHITEOUT) ≠ 0 then (fs, -EOPNOTSUPP)
  else if !nameOk then (fs, -ENOMEM)
  else
    match tmpfsFindDirentLocked (fs.inodes oldDir).children oldName with
    | none => (fs, -ENOENT)
    | some oldDe =>
      let fs1 := fs.setChildren oldDir ((fs.inodes oldDir).children.eraseP (·.name = oldName))
      match tmpfsFindDirentLocked (fs1.inodes newDir).children newName with
      | some victim =>
        let fs2 := fs1.setChildren newDir ((fs1.inodes newDir).children.eraseP (·.name = newName))
        if sIsDir (fs2.inodes victim.inode).mode ≠ sIsDir (fs2.inodes oldDe.inode).mode then
          -- both entries go back, each at the end of its directory
          let fs3 := fs2.setChildren oldDir ((fs2.inodes oldDir).children ++ [oldDe])
          (fs3.setChildren newDir ((fs3.inodes newDir).children ++ [victim]), -ENOTEMPTY)
        else (fs2.setChildren newDir ((fs2.inodes newDir).children ++ [⟨newName, oldDe.inode⟩]), 0)
      | none =>
        if flags &&& VFS_RENAME_NOREPLACE ≠ 0 then
          (fs1.setChildren oldDir ((fs1.inodes oldDir).children ++ [oldDe]), -EEXIST)
        else (fs1.setChildren newDir ((fs1.inodes newDir).children ++ [⟨newName, oldDe.inode⟩]), 0)

/-! ## Calls -/

/-- one call into the tmpfs namespace, with the dentries as tmpfs reads them -/
inductive TmpfsOp
  | create (dir : Nat) (name : String) (mode : Nat) (a : CreateAlloc)
  | mkdir (dir : Nat) (name : String) (mode : Nat) (a : CreateAlloc)
  | mknod (dir : Nat) (name : String) (mode : Nat) (a : CreateAlloc)
  | symlink (dir : Nat) (name target : String) (a : CreateAlloc)
  | link (old : Option Nat) (dir : Nat) (name : String) (direntOk : Bool)
  | unlink (dir : Nat) (name : String) (inode : Option Nat)
  | rmdir (dir : Nat) (name : String) (inode : Option Nat)
  | rename (oldDir : Nat) (oldName : String) (newDir : Nat) (newName : String) (flags : Nat) (nameOk : Bool)

/-- a call and its return value -/
def step (fs : Fs) : TmpfsOp → Fs × Int
  | .create dir name mode a => tmpfsCreate fs dir name mode a
  | .mkdir dir name mode a => tmpfsMkdir fs dir name mode a
  | .mknod dir name mode a => tmpfsMknod fs dir name mode a
  | .symlink dir name target a => tmpfsSymlink fs dir name target a
  | .link old dir name ok => tmpfsLink fs old dir name ok
  | .unlink dir name inode => tmpfsUnlink fs dir name inode
  | .rmdir dir name inode => tmpfsRmdir fs dir name inode
  | .rename oldDir oldName newDir newName flags ok => tmpfsRename fs oldDir oldName newDir newName flags ok

/-- the state after a sequence of calls -/
def run (fs : Fs) : List TmpfsOp → Fs
  | [] => fs
  | op :: ops => run (step fs op).1 ops

/-! ## Mounting -/

/-- `tmpfs_fill_super`'s root: a directory of mode `S_IFDIR | 01777` with two links, alone in a fresh arena -/
def tmpfsRoot (sb : Nat) : Fs × Nat :=
  tmpfsNewInode ⟨fun _ => ⟨0, 0, 0, []⟩, ∅, 1⟩ sb (S_IFDIR ||| 0o1777)

end Naos.Tmpfs
