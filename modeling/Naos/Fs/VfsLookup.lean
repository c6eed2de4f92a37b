/-
__vfs_filename_lookup of fs/vfs/vfs_lookup.c: the walk of a path name over the dentry and mount trees, with `.`,
`..`, mount crossings, the scope of LOOKUP_BENEATH and LOOKUP_IN_ROOT, and symlinks followed by recursion.

The trees do not change during a lookup (`VfsTree`): each dentry's d_parent and the mode of its inode, each mount's
root and the mount and mountpoint above it, the mount vfs_child_mount_at finds on a dentry of a mount, the answer of
vfs_lookup_component for a name under a dentry, and the get_link of a symlink: none, an error, NULL, a target text,
or a path in nd.path, as the /proc links give it. A tree carries heights that each step up decreases and each mount
crossing down decreases, so every walk up (vfs_path_is_ancestor) and every vfs_follow_mount ends. The recursion
through vfs_follow_symlink ends at VFS_MAX_SYMLINKS; the component loop ends with the text.

Results:
- `scoped_lookup_escapes_through_magic_link`: a LOOKUP_BENEATH lookup of a link that names a path outside its root
  returns that path;
- `unscoped_lookup_diverges_from_posix`: /f/ is the file f, /mnt/.. is the dentry a mount covers, and /mnt/../x is
  in the mount.
-/
import Mathlib
import Naos.Fs.Tmpfs

namespace Naos.Vfs

open Naos.Tmpfs

/-! ## The model -/

def ELOOP : Int := 40

def VFS_MAX_SYMLINKS : Nat := 8

def LOOKUP_FOLLOW : Nat := 1 <<< 0
def LOOKUP_DIRECTORY : Nat := 1 <<< 1
def LOOKUP_NOFOLLOW : Nat := 1 <<< 7
def LOOKUP_NO_SYMLINKS : Nat := 1 <<< 8
def LOOKUP_BENEATH : Nat := 1 <<< 9
def LOOKUP_IN_ROOT : Nat := 1 <<< 10
def LOOKUP_EMPTY : Nat := 1 <<< 11
def LOOKUP_NO_LAST_MOUNT : Nat := 1 <<< 14
def LOOKUP_NO_XDEV : Nat := 1 <<< 15

/-- struct vfs_path: a mount and a dentry of it -/
structure VfsPath where
  mnt : Nat
  dentry : Nat
deriving Repr, DecidableEq

/-- what the get_link of a symlink's inode gives -/
inductive LinkTarget
  /-- the inode has no get_link -/
  | noGetLink
  /-- an ERR_PTR -/
  | err (e : Int)
  | null
  /-- a target text, with nd.path left unset -/
  | text (target : List Char)
  /-- nd.path set: the link names a path directly -/
  | path (p : VfsPath)
deriving Repr, DecidableEq

/-- the dentry and mount trees and the answers of the file systems, as a lookup reads them -/
structure VfsTree where
  /-- d_parent, when it is another dentry -/
  dParent : Nat → Option Nat
  /-- the i_mode of the dentry's inode; none for a negative dentry -/
  mode : Nat → Option Nat
  mntRoot : Nat → Nat
  /-- mnt_parent and mnt_mountpoint, when both are set and the parent is another mount -/
  mntUp : Nat → Option VfsPath
  /-- vfs_child_mount_at: the newest mount on a dentry of a mount -/
  childMount : Nat → Nat → Option Nat
  /-- vfs_lookup_component: the dentry of a name under a directory, or an error -/
  lookup : Nat → List Char → Except Int Nat
  getLink : Nat → LinkTarget
  dHeight : Nat → Nat
  mntHeight : Nat → Nat
  stackHeight : VfsPath → Nat
  dParent_lt : ∀ d p, dParent d = some p → dHeight p < dHeight d
  mntUp_lt : ∀ m up, mntUp m = some up → mntHeight up.mnt < mntHeight m
  childMount_lt : ∀ p c, childMount p.mnt p.dentry = some c → stackHeight ⟨c, mntRoot c⟩ < stackHeight p

variable (t : VfsTree)

/-- the step up of vfs_walk_dotdot and of the loop of vfs_path_is_ancestor: from a mount's root to its mountpoint,
elsewhere to d_parent -/
def pathUp (p : VfsPath) : Option VfsPath :=
  match (if p.dentry = t.mntRoot p.mnt then t.mntUp p.mnt else none) with
  | some up => some up
  | none => (t.dParent p.dentry).map fun d => ⟨p.mnt, d⟩

/-- a step up lowers the mount's height, or keeps the mount and lowers the dentry's -/
theorem pathUp_lex {p q : VfsPath} (h : pathUp t p = some q) :
    Prod.Lex (· < ·) (· < ·) (t.mntHeight q.mnt, t.dHeight q.dentry) (t.mntHeight p.mnt, t.dHeight p.dentry) := by
  unfold pathUp at h
  split at h
  · next up hup =>
    cases h
    split_ifs at hup
    exact Prod.Lex.left _ _ (t.mntUp_lt _ _ hup)
  · obtain ⟨d, hd, rfl⟩ := Option.map_eq_some_iff.1 h
    exact Prod.Lex.right _ (t.dParent_lt _ _ hd)

/-- the loop of vfs_path_is_ancestor from `cursor` -/
def vfsPathIsAncestorLoop (ancestor cursor : VfsPath) : Bool :=
  if ancestor = cursor then true
  else
    match _h : pathUp t cursor with
    | some up => vfsPathIsAncestorLoop ancestor up
    | none => false
termination_by (t.mntHeight cursor.mnt, t.dHeight cursor.dentry)
decreasing_by exact pathUp_lex t _h

/-- vfs_path_is_ancestor -/
def vfsPathIsAncestor (ancestor path : VfsPath) : Bool := vfsPathIsAncestorLoop t ancestor path

/-- vfs_follow_mount: down the mounts stacked on the path to the newest one's root -/
def vfsFollowMount (p : VfsPath) : VfsPath :=
  match _h : t.childMount p.mnt p.dentry with
  | none => p
  | some c => vfsFollowMount ⟨c, t.mntRoot c⟩
termination_by t.stackHeight p
decreasing_by exact t.childMount_lt p c _h

/-- vfs_follow_mount_checked: -EXDEV under LOOKUP_NO_XDEV when a mount was crossed -/
def vfsFollowMountChecked (p : VfsPath) (flags : Nat) : Except Int VfsPath :=
  if flags &&& LOOKUP_NO_XDEV ≠ 0 ∧ vfsFollowMount t p ≠ p then .error (-EXDEV) else .ok (vfsFollowMount t p)

/-- vfs_lookup_apply_scope: a scoped lookup that left its root goes back to it under LOOKUP_IN_ROOT and fails with
-EXDEV under LOOKUP_BENEATH -/
def vfsLookupApplyScope (p root : VfsPath) (flags : Nat) : Except Int VfsPath :=
  if flags &&& (LOOKUP_BENEATH ||| LOOKUP_IN_ROOT) ≠ 0 ∧ !vfsPathIsAncestor t root p then
    if flags &&& LOOKUP_IN_ROOT ≠ 0 then .ok root else .error (-EXDEV)
  else .ok p

/-- vfs_walk_dotdot: at the root it stays; elsewhere one step up, then the scope check -/
def vfsWalkDotdot (p root : VfsPath) (flags : Nat) : Except Int VfsPath :=
  if p = root then .ok p else vfsLookupApplyScope t ((pathUp t p).getD p) root flags

/-- pathtok: the next component, past the slashes before it, and the text after the slash that ends it -/
def pathtok (s : List Char) : Option (List Char × List Char) :=
  let e := s.dropWhile (· == '/')
  if e = [] then none else some (e.takeWhile (· != '/'), (e.dropWhile (· != '/')).drop 1)

/-- vfs_has_remaining_components -/
def vfsHasRemainingComponents (rest : List Char) : Bool := rest.any (· != '/')

theorem pathtok_length {s component rest : List Char} (h : pathtok s = some (component, rest)) :
    rest.length < s.length := by
  unfold pathtok at h
  dsimp only at h
  split_ifs at h with he
  cases h
  have h₁ := (List.dropWhile_suffix (· != '/') (l := s.dropWhile (· == '/'))).length_le
  have h₂ := (List.dropWhile_suffix (· == '/') (l := s)).length_le
  have h₃ : 0 < (s.dropWhile (· == '/')).length := List.length_pos_iff.2 he
  rw [List.length_drop]
  omega

/-- the part of the component loop after a component that is no symlink to follow: the step onto it and its scope
check, the mounts on it unless LOOKUP_NO_LAST_MOUNT stops them at the last component, and the scope check again -/
def stepOnto (path root : VfsPath) (next : Nat) (flags : Nat) (hasRemaining : Bool) : Except Int VfsPath := do
  let path ← vfsLookupApplyScope t ⟨path.mnt, next⟩ root flags
  let path ← if flags &&& LOOKUP_NO_LAST_MOUNT = 0 ∨ hasRemaining then vfsFollowMountChecked t path flags
    else pure path
  vfsLookupApplyScope t path root flags

/-- one pass of the component loop of __vfs_filename_lookup, on `component` with the text `rest` after it: the
mounts on the path, then `.`, `..` or the entry of the name, with vfs_follow_symlink at the depth of the lookup as
`follow`, which the loop returns through, and `loop` for the passes after this one -/
def walkComponent (root : VfsPath) (flags : Nat) (follow : VfsPath → Nat → List Char → Except Int VfsPath)
    (loop : VfsPath → Except Int VfsPath) (component rest : List Char) (path : VfsPath) : Except Int VfsPath := do
  let path ← vfsFollowMountChecked t path flags
  match t.mode path.dentry with
  | none => .error (-ENOENT)
  | some m =>
    if !sIsDir m then .error (-ENOTDIR)
    else if component = ['.'] then do
      let path ← vfsLookupApplyScope t path root flags
      loop path
    else if component = ['.', '.'] then do
      let path ← vfsWalkDotdot t path root flags
      loop path
    else do
      let next ← t.lookup path.dentry component
      match t.mode next with
      | none => .error (-ENOENT)
      | some nm =>
        let hasRemaining := vfsHasRemainingComponents rest
        if flags &&& LOOKUP_NO_SYMLINKS ≠ 0 ∧ sIsLnk nm then .error (-ELOOP)
        else if sIsLnk nm ∧ (flags &&& LOOKUP_NOFOLLOW = 0 ∨ hasRemaining ∨ flags &&& LOOKUP_FOLLOW ≠ 0) then
          follow path next rest
        else do
          let path ← stepOnto t path root next flags hasRemaining
          loop path

/-- the component loop of __vfs_filename_lookup over the text `cursor` from `path`, and the LOOKUP_DIRECTORY check
after it -/
def walkComponents (root : VfsPath) (flags : Nat) (follow : VfsPath → Nat → List Char → Except Int VfsPath)
    (cursor : List Char) (path : VfsPath) : Except Int VfsPath :=
  match _h : pathtok cursor with
  | none =>
    if flags &&& LOOKUP_DIRECTORY ≠ 0 ∧ (t.mode path.dentry).any (fun m => !sIsDir m) then .error (-ENOTDIR)
    else .ok path
  | some (component, rest) =>
    walkComponent t root flags follow (fun path => walkComponents root flags follow rest path) component rest path
termination_by cursor.length
decreasing_by exact pathtok_length _h

/-- vfs_follow_symlink at `depth`, with the lookup one level deeper as `lookup`, which it calls only below
VFS_MAX_SYMLINKS: a link that names a path is returned as it is, or the rest is walked from it with it as the
root; a target text is walked with the rest after it, from the root when it is absolute -/
def vfsFollowSymlink (root : VfsPath) (flags depth : Nat)
    (lookup : depth < VFS_MAX_SYMLINKS → VfsPath → VfsPath → List Char → Except Int VfsPath)
    (parent : VfsPath) (link : Nat) (remaining : List Char) : Except Int VfsPath :=
  if h : depth ≥ VFS_MAX_SYMLINKS then .error (-ELOOP)
  else
    match t.getLink link with
    | .noGetLink => .error (-ELOOP)
    | .err e => .error e
    | .null => .error (-ENOENT)
    | .path p => if remaining = [] then .ok p else lookup (by omega) p p remaining
    | .text target =>
      let pathbuf := if remaining = [] then target else target ++ '/' :: remaining
      if target.head? = some '/' then
        if flags &&& LOOKUP_BENEATH ≠ 0 then .error (-EXDEV) else lookup (by omega) root root pathbuf
      else do
        let next ← vfsFollowMountChecked t parent flags
        lookup (by omega) next root pathbuf

/-- __vfs_filename_lookup of `name` from `start` under `root`, at symlink depth `depth` -/
def vfsFilenameLookup (flags depth : Nat) (start root : VfsPath) (name : List Char) : Except Int VfsPath :=
  if name = [] then (if flags &&& LOOKUP_EMPTY ≠ 0 then .ok start else .error (-ENOENT))
  else do
    let path ← vfsFollowMountChecked t start flags
    let walk := if name.head? = some '/' then name.tail else name
    if walk = [] then .ok path
    else
      walkComponents t root flags
        (vfsFollowSymlink t root flags depth fun _ s r n => vfsFilenameLookup flags (depth + 1) s r n) walk path
termination_by VFS_MAX_SYMLINKS - depth

/-- vfs_get_fs_start for a task whose root is `procRoot` and whose dfd (or cwd for AT_FDCWD) is at `dirPath`: the
start and the root. A scoped lookup starts at the dfd and has it as its root; LOOKUP_BENEATH refuses an absolute
name. -/
def vfsGetFsStart (flags : Nat) (procRoot dirPath : VfsPath) (name : List Char) : Except Int (VfsPath × VfsPath) :=
  match vfsFollowMountChecked t procRoot flags with
  | .error _ => .error (-EXDEV)
  | .ok root =>
    if flags &&& (LOOKUP_BENEATH ||| LOOKUP_IN_ROOT) ≠ 0 then
      if flags &&& LOOKUP_BENEATH ≠ 0 ∧ name.head? = some '/' then .error (-EXDEV)
      else
        match vfsFollowMountChecked t dirPath flags with
        | .error _ => .error (-EXDEV)
        | .ok scopedStart => .ok (scopedStart, scopedStart)
    else if name.head? = some '/' then .ok (root, root)
    else .ok (dirPath, root)

/-- vfs_filename_lookup -/
def vfsFilenameLookupAt (flags : Nat) (procRoot dirPath : VfsPath) (name : List Char) : Except Int VfsPath := do
  let (start, root) ← vfsGetFsStart t flags procRoot dirPath name
  vfsFilenameLookup t flags 0 start root name

/-! ## What each part of a lookup returns -/

/-- vfs_child_mount_at finds mounts whose parent and mountpoint are where it looked -/
def MountsNested : Prop := ∀ p c, t.childMount p.mnt p.dentry = some c → t.mntUp c = some p

variable {t}

section Ancestor

variable {root p q : VfsPath}

theorem vfsPathIsAncestor_iff :
    vfsPathIsAncestor t root p = true ↔ root = p ∨ ∃ up, pathUp t p = some up ∧ vfsPathIsAncestor t root up = true := by
  unfold vfsPathIsAncestor
  rw [vfsPathIsAncestorLoop]
  split_ifs with h
  · simp [h]
  · split <;> simp_all

/-- a path with no step up is below only itself -/
theorem vfsPathIsAncestor_of_pathUp_none (hne : root ≠ p) (h : pathUp t p = none) :
    vfsPathIsAncestor t root p = false := by
  rw [Bool.eq_false_iff]
  intro hanc
  rcases (vfsPathIsAncestor_iff).1 hanc with heq | ⟨up, hup, -⟩
  · exact hne heq
  · rw [h] at hup
    cases hup

theorem vfsPathIsAncestor_of_pathUp (hne : root ≠ p) (h : pathUp t p = some q) :
    vfsPathIsAncestor t root p = vfsPathIsAncestor t root q := by
  apply Bool.eq_iff_iff.2
  rw [vfsPathIsAncestor_iff]
  simp [hne, h]

end Ancestor

/-! ## A link that names a path -/

/-- the root (dentry 0) with the directory fd (1), whose entry 3 (2) is a link that names the file secret (3) of
the root directly, as /proc/<pid>/fd/3 does; one mount (0) with no mount on it -/
def fdTree : VfsTree where
  dParent d := if d = 1 ∨ d = 3 then some 0 else if d = 2 then some 1 else none
  mode d := if d ≤ 1 then some (S_IFDIR ||| 0o755) else if d = 2 then some (S_IFLNK ||| 0o777)
    else if d = 3 then some (S_IFREG ||| 0o644) else none
  mntRoot _ := 0
  mntUp _ := none
  childMount _ _ := none
  lookup d name :=
    if d = 0 ∧ name = "fd".toList then .ok 1 else if d = 0 ∧ name = "secret".toList then .ok 3
    else if d = 1 ∧ name = ['3'] then .ok 2 else .error (-ENOENT)
  getLink d := if d = 2 then .path ⟨0, 3⟩ else .noGetLink
  dHeight d := d
  mntHeight m := m
  stackHeight _ := 0
  dParent_lt d p h := by
    split_ifs at h with h1 h2 <;> cases h <;> omega
  mntUp_lt _ _ h := by cases h
  childMount_lt _ _ h := by cases h

/-- a LOOKUP_BENEATH lookup of 3 from the directory fd, in a tree whose mounts are nested, starts there with fd as
its root and returns secret, which is not below fd -/
theorem scoped_lookup_escapes_through_magic_link :
    MountsNested fdTree ∧
      vfsGetFsStart fdTree LOOKUP_BENEATH ⟨0, 0⟩ ⟨0, 1⟩ ['3'] = .ok (⟨0, 1⟩, ⟨0, 1⟩) ∧
      vfsFilenameLookupAt fdTree LOOKUP_BENEATH ⟨0, 0⟩ ⟨0, 1⟩ ['3'] = .ok ⟨0, 3⟩ ∧
      vfsPathIsAncestor fdTree ⟨0, 1⟩ ⟨0, 3⟩ = false := by
  refine ⟨?_, by decide +kernel, by decide +kernel, ?_⟩
  · intro p c h
    simp [fdTree] at h
  · rw [@vfsPathIsAncestor_of_pathUp fdTree ⟨0, 1⟩ ⟨0, 3⟩ ⟨0, 0⟩ (by decide) (by decide),
      vfsPathIsAncestor_of_pathUp_none (by decide) (by decide)]

/-! ## A trailing slash and `..` at a mount -/

/-- the root (dentry 0 of mount 0) with the directory mnt (1), the file x (4) and the file f (5); mount 1 on mnt,
whose root (2) holds another file x (3) -/
def mountTree : VfsTree where
  dParent d := if d = 1 ∨ d = 4 ∨ d = 5 then some 0 else if d = 3 then some 2 else none
  mode d := if d ≤ 2 then some (S_IFDIR ||| 0o755) else if d ≤ 5 then some (S_IFREG ||| 0o644) else none
  mntRoot m := if m = 1 then 2 else 0
  mntUp m := if m = 1 then some ⟨0, 1⟩ else none
  childMount m d := if m = 0 ∧ d = 1 then some 1 else none
  lookup d name :=
    if d = 0 ∧ name = "mnt".toList then .ok 1 else if d = 0 ∧ name = ['x'] then .ok 4
    else if d = 0 ∧ name = ['f'] then .ok 5 else if d = 2 ∧ name = ['x'] then .ok 3 else .error (-ENOENT)
  getLink _ := .noGetLink
  dHeight d := d
  mntHeight m := m
  stackHeight p := if p = ⟨0, 1⟩ then 1 else 0
  dParent_lt d p h := by
    split_ifs at h with h1 h2 <;> cases h <;> omega
  mntUp_lt m up h := by
    split_ifs at h with h1
    cases h
    show 0 < m
    omega
  childMount_lt p c h := by
    split_ifs at h with h1
    cases h
    obtain ⟨m, d⟩ := p
    obtain ⟨rfl, rfl⟩ := h1
    decide

/-- unscoped lookups from the root, in a tree whose mounts are nested: /f/ is the file f; /mnt/.. is the dentry mnt
that mount 1 covers, not the root; /mnt/../x is the x of mount 1, not the root's x -/
theorem unscoped_lookup_diverges_from_posix :
    MountsNested mountTree ∧
      vfsFilenameLookupAt mountTree 0 ⟨0, 0⟩ ⟨0, 0⟩ "/f/".toList = .ok ⟨0, 5⟩ ∧
      mountTree.mode 5 = some (S_IFREG ||| 0o644) ∧
      vfsFilenameLookupAt mountTree 0 ⟨0, 0⟩ ⟨0, 0⟩ "/mnt/..".toList = .ok ⟨0, 1⟩ ∧
      vfsFilenameLookupAt mountTree 0 ⟨0, 0⟩ ⟨0, 0⟩ "/".toList = .ok ⟨0, 0⟩ ∧
      vfsFilenameLookupAt mountTree 0 ⟨0, 0⟩ ⟨0, 0⟩ "/mnt/../x".toList = .ok ⟨1, 3⟩ ∧
      vfsFilenameLookupAt mountTree 0 ⟨0, 0⟩ ⟨0, 0⟩ "/x".toList = .ok ⟨0, 4⟩ := by
  refine ⟨?_, by decide +kernel, rfl, by decide +kernel, by decide +kernel, by decide +kernel, by decide +kernel⟩
  rintro ⟨m, d⟩ c h
  simp only [mountTree] at h
  split_ifs at h with hmd
  cases h
  obtain ⟨rfl, rfl⟩ := hmd
  rfl

end Naos.Vfs
