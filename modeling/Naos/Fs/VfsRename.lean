/-
`vfs_renameat2` of `fs/vfs/vfs_ops.c` over the dentry cache of `fs/vfs/vfs_dentry.c` and tmpfs.

The model starts after the two `LOOKUP_PARENT` walks: their results, a parent dentry and a last name each, are the
inputs. The dentry cache is one list of the hashed dentries, newest first: a dentry is hashed in the bucket of its
superblock, parent and name, which never change, and `vfs_d_lookup` compares parent and name within the bucket of
the parent, so the first match in the list is the first match in the bucket. The permission checks
(`vfs_may_delete`, `vfs_may_write_dir`) and the allocations are the environment (`RenameEnv`).

Several tmpfs instances share one inode arena here, each inode carrying its superblock.

Results:
- `rename_across_superblocks`: a rename from one tmpfs into another returns 0, and the second tmpfs's root now
  holds an entry for an inode of the first.
-/
import Mathlib
import Naos.Fs.Tmpfs

namespace Naos.Vfs

open Naos.Tmpfs

def VFS_NAME_MAX : Nat := 255

/-! ## The dentry cache -/

/-- the fields of a `vfs_dentry` that rename reads and writes -/
structure Dentry where
  /-- `d_parent`: a root dentry is its own parent -/
  parent : Nat
  name : String
  /-- `d_inode`: none for a negative dentry -/
  inode : Option Nat
  sb : Nat
deriving Repr, DecidableEq

/-- the dentries, the hashed ones newest first, and the inodes of tmpfs -/
structure VfsState where
  fs : Fs
  dentries : Nat → Dentry
  cache : List Nat
  nextDentry : Nat

/-- `vfs_d_lookup`: `.` and `..` by the parent, any other name in the cache only -/
def vfsDLookup (v : VfsState) (parent : Nat) (name : String) : Option Nat :=
  if name = "." then some parent
  else if name = ".." then some (v.dentries parent).parent
  else v.cache.find? fun d => (v.dentries d).parent = parent ∧ (v.dentries d).name = name

/-- `vfs_d_alloc`: a negative dentry, unhashed; `ok` says whether its memory could be allocated -/
def vfsDAlloc (v : VfsState) (sb parent : Nat) (name : String) (ok : Bool) : Option (VfsState × Nat) :=
  if VFS_NAME_MAX < name.utf8ByteSize ∨ !ok then none
  else some ({ v with dentries := Function.update v.dentries v.nextDentry ⟨parent, name, none, sb⟩,
                      nextDentry := v.nextDentry + 1 }, v.nextDentry)

/-- `vfs_d_add` of a dentry that has its parent: it is hashed unless it already is -/
def vfsDAdd (v : VfsState) (d : Nat) : VfsState := if d ∈ v.cache then v else { v with cache := d :: v.cache }

/-- `vfs_d_instantiate` -/
def vfsDInstantiate (v : VfsState) (d : Nat) (inode : Option Nat) : VfsState :=
  { v with dentries := Function.update v.dentries d { v.dentries d with inode := inode } }

/-- `vfs_dentry_unhash` -/
def vfsDentryUnhash (v : VfsState) (d : Nat) : VfsState := { v with cache := v.cache.erase d }

/-! ## Renaming -/

/-- what the environment decides in a rename: the allocation of a new dentry and of the new name, and the
permission checks on the old and the new directory (0, or an error) -/
structure RenameEnv where
  dentryOk : Bool
  nameOk : Bool
  permOld : Int
  permNew : Int

/-- the target dentry of `vfs_renameat2`: the cached one, or a fresh negative one under the new parent -/
def vfsRenameTarget (v : VfsState) (newParent : Nat) (newLast : String) (ok : Bool) : Option (VfsState × Nat) :=
  match vfsDLookup v newParent newLast with
  | some nd => some (v, nd)
  | none => vfsDAlloc v (v.dentries newParent).sb newParent newLast ok

/-- what `vfs_renameat2` does to the dentries once the rename succeeded: the new dentry is hashed and takes the
moved inode, the old one is unhashed and turns negative -/
def vfsRenameCommit (v : VfsState) (od nd moved : Nat) : VfsState :=
  if od ≠ nd then vfsDInstantiate (vfsDentryUnhash (vfsDInstantiate (vfsDAdd v nd) nd (some moved)) od) od none
  else v

/-- `vfs_renameat2` once the two parents are found, with tmpfs as the filesystem -/
def vfsRenameat2 (v : VfsState) (oldParent : Nat) (oldLast : String) (newParent : Nat) (newLast : String) (flags : Nat)
    (env : RenameEnv) : VfsState × Int :=
  match vfsDLookup v oldParent oldLast with
  | none => (v, -ENOENT)
  | some od =>
    match (v.dentries od).inode with
    | none => (v, -ENOENT)
    | some moved =>
      match vfsRenameTarget v newParent newLast env.dentryOk with
      | none => (v, -ENOMEM)
      | some (v1, nd) =>
        match (v1.dentries oldParent).inode with
        | none => (v1, -EOPNOTSUPP)
        | some oldDir =>
          if env.permOld < 0 then (v1, env.permOld)
          else
            match (v1.dentries newParent).inode with
            -- `vfs_may_write_dir` of a missing directory
            | none => (v1, -ENOENT)
            | some newDir =>
              if env.permNew < 0 then (v1, env.permNew)
              else
                let r := tmpfsRename v1.fs oldDir (v1.dentries od).name newDir (v1.dentries nd).name flags env.nameOk
                if r.2 = 0 then (vfsRenameCommit { v1 with fs := r.1 } od nd moved, 0)
                else ({ v1 with fs := r.1 }, r.2)

/-! ## The dentry operations -/

section Ops

variable {v : VfsState} {d e : Nat} {i : Option Nat}

@[simp] theorem vfsDInstantiate_cache : (vfsDInstantiate v d i).cache = v.cache := rfl
@[simp] theorem vfsDInstantiate_nextDentry : (vfsDInstantiate v d i).nextDentry = v.nextDentry := rfl
@[simp] theorem vfsDInstantiate_fs : (vfsDInstantiate v d i).fs = v.fs := rfl

@[simp] theorem vfsDentryUnhash_cache : (vfsDentryUnhash v d).cache = v.cache.erase d := rfl
@[simp] theorem vfsDentryUnhash_dentries : (vfsDentryUnhash v d).dentries = v.dentries := rfl
@[simp] theorem vfsDentryUnhash_nextDentry : (vfsDentryUnhash v d).nextDentry = v.nextDentry := rfl
@[simp] theorem vfsDentryUnhash_fs : (vfsDentryUnhash v d).fs = v.fs := rfl

end Ops

/-! ## The cache invariant -/

/-- the hashed dentries of `vfs_dentry.c`: each is hashed once (`VFS_DENTRY_HASHED`), was allocated, and no two
share a parent and a name, so a lookup has one answer -/
structure CacheOk (v : VfsState) : Prop where
  nodup : v.cache.Nodup
  lt_next : ∀ d ∈ v.cache, d < v.nextDentry
  unique : ∀ d ∈ v.cache, ∀ e ∈ v.cache, (v.dentries d).parent = (v.dentries e).parent →
    (v.dentries d).name = (v.dentries e).name → d = e

/-! ## Two tmpfs instances -/

/-- a tmpfs with the file `/f` and a second tmpfs, of superblock 1, mounted beside it: dentry 0 is the first root,
dentry 1 the hashed dentry of `/f`, dentry 2 the second root -/
def twoTmpfs : VfsState where
  fs := (tmpfsNewInode (run (tmpfsRoot 0).1 [.create 1 "f" 0o644 ⟨true, true, 0⟩]) 1 (S_IFDIR ||| 0o1777)).1
  dentries := fun
    | 0 => ⟨0, "", some 1, 0⟩
    | 1 => ⟨0, "f", some 2, 0⟩
    | 2 => ⟨2, "", some 3, 1⟩
    | d => ⟨d, "", none, 0⟩
  cache := [1]
  nextDentry := 3

/-- `rename("/f", "/mnt/f")` from the first tmpfs into the root of the second returns 0 where `-EXDEV` is due: the
second root now holds an entry for an inode of the first superblock -/
theorem rename_across_superblocks :
    CacheOk twoTmpfs ∧ (twoTmpfs.dentries 0).sb = 0 ∧ (twoTmpfs.dentries 2).sb = 1 ∧
      (twoTmpfs.fs.inodes 2).sb = 0 ∧ (twoTmpfs.fs.inodes 3).sb = 1 ∧
      (vfsRenameat2 twoTmpfs 0 "f" 2 "f" 0 ⟨true, true, 0, 0⟩).2 = 0 ∧
      ((vfsRenameat2 twoTmpfs 0 "f" 2 "f" 0 ⟨true, true, 0, 0⟩).1.fs.inodes 3).children = [⟨"f", 2⟩] :=
  ⟨⟨by decide, by decide, by decide⟩, rfl, rfl, by decide, by decide, by decide, by decide⟩

end Naos.Vfs
