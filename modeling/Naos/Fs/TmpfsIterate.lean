/-
tmpfs_iterate_shared of fs/tmp.c, driven by getdents64 in chunks, beside the calls of other tasks on the directory.

The position of a listing is the ordinal of an entry in `info->children`: a call skips the first `ctx->pos`
entries, hands the rest to the actor until the actor refuses one, and leaves `ctx->pos` (and `f_pos`) at the
ordinal of the last entry it took. getdents64_actor writes a `linux_dirent64` record while the record fits the
user buffer. A listing (`Listing`) is the file position and the entries its getdents64 calls handed out; a run
(`listRun`) interleaves those calls with any calls into the tmpfs namespace (`TmpfsOp`).

Results:
- `tmpfs_listing_skips_and_repeats`: an unlink of an entry already listed makes the next call skip an entry that
  stays, and a rename that fails with -ENOTEMPTY makes it hand out an entry a second time and skip another.
-/
import Mathlib
import Naos.Fs.TmpfsNs

namespace Naos.Tmpfs

/-! ## The model -/

def S_IFSOCK : Nat := 0o140000
def S_IFBLK : Nat := 0o060000
def S_IFCHR : Nat := 0o020000
def S_IFIFO : Nat := 0o010000

def DT_FIFO : Nat := 1
def DT_CHR : Nat := 2
def DT_DIR : Nat := 4
def DT_BLK : Nat := 6
def DT_REG : Nat := 8
def DT_LNK : Nat := 10
def DT_SOCK : Nat := 12

/-- tmpfs_dtype -/
def tmpfsDtype (mode : Nat) : Nat :=
  if sIsDir mode then DT_DIR
  else if sIsLnk mode then DT_LNK
  else if mode &&& S_IFMT == S_IFCHR then DT_CHR
  else if mode &&& S_IFMT == S_IFBLK then DT_BLK
  else if mode &&& S_IFMT == S_IFIFO then DT_FIFO
  else if mode &&& S_IFMT == S_IFSOCK then DT_SOCK
  else DT_REG

/-- an actor of a `vfs_dir_context`, on its private state: the name, the position after the entry, the inode
number and the type; `none` is a nonzero return, which ends the walk -/
abbrev DirActor (σ : Type) := σ → String → Nat → Nat → Nat → Option σ

variable {σ : Type}

/-- the llist_for_each of tmpfs_iterate_shared after `index` entries: an entry whose ordinal is at most ctx->pos is
skipped, and an entry the actor takes moves ctx->pos to its ordinal -/
def iterateLoop (actor : DirActor σ) (fs : Fs) : List Dirent → Nat → Nat → σ → Nat × σ
  | [], _, pos, s => (pos, s)
  | de :: rest, index, pos, s =>
    if index + 1 ≤ pos then iterateLoop actor fs rest (index + 1) pos s
    else
      match actor s de.name (index + 1) de.inode (tmpfsDtype (fs.inodes de.inode).mode) with
      | none => (pos, s)
      | some s' => iterateLoop actor fs rest (index + 1) (index + 1) s'

/-- tmpfs_iterate_shared on the directory `dir` from ctx->pos = `pos`: the return value, ctx->pos after it (which
is also f_pos) and the actor's state -/
def tmpfsIterateShared (fs : Fs) (dir pos : Nat) (actor : DirActor σ) (s : σ) : Int × Nat × σ :=
  if !sIsDir (fs.inodes dir).mode then (-ENOTDIR, pos, s)
  else
    let r := iterateLoop actor fs (fs.inodes dir).children 0 pos s
    (0, r.1, r.2)

/-- a `linux_dirent64` record in the user buffer -/
structure Dirent64 where
  ino : Nat
  off : Nat
  type : Nat
  name : String
deriving Repr, DecidableEq

/-- offsetof(struct linux_dirent64, d_name): d_ino, d_off, d_reclen and d_type -/
def DIRENT64_HEADER_SIZE : Nat := 19

/-- dirent64_reclen: the header, the name and its NUL, rounded up to 8 bytes -/
def dirent64Reclen (nameLen : Nat) : Nat := (DIRENT64_HEADER_SIZE + nameLen + 1 + 7) / 8 * 8

/-- the getdents_state of a getdents64 call: the bytes written and the records they hold -/
structure GetdentsState where
  written : Nat
  out : List Dirent64

/-- getdents64_actor for a buffer of `size` bytes: a record that does not fit is refused with -EINVAL -/
def getdents64Actor (size : Nat) : DirActor GetdentsState := fun state name next ino dType =>
  let reclen := dirent64Reclen name.utf8ByteSize
  if state.written + reclen > size then none
  else some ⟨state.written + reclen, state.out ++ [⟨ino, next, dType, name⟩]⟩

/-- a listing of the directory by one open file: the tmpfs state, f_pos, and the entries (name and inode) that
its getdents64 calls handed out so far -/
structure Listing where
  fs : Fs
  pos : Nat
  reported : List Dirent

/-- one step of a run: a getdents64 call of the listing with a buffer of `size` bytes, or a call of another task -/
inductive ListEvent
  | getdents (size : Nat)
  | op (o : TmpfsOp)

/-- the records of a getdents64 call as the entries they name -/
def Dirent64.entry (d : Dirent64) : Dirent := ⟨d.name, d.ino⟩

/-- one step of a run on the listed directory `dir` -/
def listStep (dir : Nat) (t : Listing) : ListEvent → Listing
  | .getdents size =>
    let r := tmpfsIterateShared t.fs dir t.pos (getdents64Actor size) ⟨0, []⟩
    { t with pos := r.2.1, reported := t.reported ++ r.2.2.out.map Dirent64.entry }
  | .op o => { t with fs := (step t.fs o).1 }

/-- a run of the listing beside the other tasks -/
def listRun (dir : Nat) : Listing → List ListEvent → Listing
  | t, [] => t
  | t, e :: es => listRun dir (listStep dir t e) es

/-! ## Calls that move listed entries -/

/-- the root of a fresh tmpfs (inode 1) after the creates of the file a, the directory b and the file c (inodes 2, 3
and 4), in that order -/
def abcDir : Fs :=
  run (tmpfsRoot 0).1
    [.create 1 "a" 0o644 ⟨true, true, 0⟩, .mkdir 1 "b" 0o755 ⟨true, true, 0⟩, .create 1 "c" 0o644 ⟨true, true, 0⟩]

/-- a one-letter name makes a 24-byte record: a call with 24 bytes takes one entry, one with 48 bytes two. The
listing takes a, another task unlinks a, and the listing goes on to its end -/
def unlinkRace : List ListEvent :=
  [.getdents 24, .op (.unlink 1 "a" (some 2)), .getdents 48, .getdents 48]

/-- the listing takes a and b, another task renames a over the directory b, which fails, and the listing goes on to
its end -/
def renameRace : List ListEvent :=
  [.getdents 48, .op (.rename 1 "a" 1 "b" 0 true), .getdents 48, .getdents 48]

/-- after the unlink the listing never hands out b, which stays in the directory; after the failed rename, which
puts a and b back at the end, it hands out b twice and never c, and every entry stayed; each listing is at its
end -/
theorem tmpfs_listing_skips_and_repeats :
    (listRun 1 ⟨abcDir, 0, []⟩ unlinkRace).reported.map Dirent.name = ["a", "c"] ∧
      ((listRun 1 ⟨abcDir, 0, []⟩ unlinkRace).fs.inodes 1).children.map Dirent.name = ["b", "c"] ∧
      (listStep 1 (listRun 1 ⟨abcDir, 0, []⟩ unlinkRace) (.getdents 48)).reported =
        (listRun 1 ⟨abcDir, 0, []⟩ unlinkRace).reported ∧
      (step abcDir (.rename 1 "a" 1 "b" 0 true)).2 = -ENOTEMPTY ∧
      (listRun 1 ⟨abcDir, 0, []⟩ renameRace).reported.map Dirent.name = ["a", "b", "b"] ∧
      ((listRun 1 ⟨abcDir, 0, []⟩ renameRace).fs.inodes 1).children.map Dirent.name = ["c", "a", "b"] ∧
      (listStep 1 (listRun 1 ⟨abcDir, 0, []⟩ renameRace) (.getdents 48)).reported =
        (listRun 1 ⟨abcDir, 0, []⟩ renameRace).reported := by
  exact ⟨by decide, by decide, by decide, by decide, by decide, by decide, by decide⟩

end Naos.Tmpfs
