/-
The namespace invariant of tmpfs, and the calls that keep it.

The invariant `NsOk` reads the claim of `fs/tmp.c` on its namespace: names within a directory are distinct; a
non-directory has as many links as entries refer to it; a directory that hangs in the tree (the root, or one entry
refers to it) has two links and one more per subdirectory; and a directory with entries hangs in the tree. Entries
are counted over the live inodes (`Fs.refs`, `Fs.subdirs`).

A call is legal (`LegalOp`) when its directories are live directories that hang in the tree and a dentry's inode is
that of the entry of its name, as the path walk of the VFS hands them over.

Results:
- `tmpfsCreateCommon_nsOk`, `tmpfsLink_nsOk`, `tmpfsUnlink_nsOk`, `tmpfsRmdir_nsOk`: each of these calls keeps
  `NsOk`; `step_nsOk`, `run_nsOk`: so does every legal sequence of them;
- `rename_keeps_parent_nlink`: a rename that moves a directory to another parent leaves both link counts as they
  were, and breaks `NsOk`.
-/
import Mathlib
import Naos.Fs.Tmpfs

namespace Naos.Tmpfs

/-! ## Entries of a list -/

section Lists

variable {l : List Dirent} {name : String} {de : Dirent}

/-- the entry `find?` returns is the one `eraseP` removes -/
theorem find?_eraseP (h : tmpfsFindDirentLocked l name = some de) :
    ∃ l₁ l₂, l = l₁ ++ de :: l₂ ∧ l.eraseP (·.name = name) = l₁ ++ l₂ := by
  obtain ⟨-, l₁, l₂, rfl, hl₁⟩ := List.find?_eq_some_iff_append.1 h
  refine ⟨l₁, l₂, rfl, ?_⟩
  rw [List.eraseP_append_right _ fun b hb => by simpa using hl₁ b hb]
  simp [(List.find?_eq_some_iff_append.1 h).1]

theorem countP_eraseP (h : tmpfsFindDirentLocked l name = some de) (q : Dirent → Bool) :
    l.countP q = (l.eraseP (·.name = name)).countP q + if q de then 1 else 0 := by
  obtain ⟨l₁, l₂, rfl, he⟩ := find?_eraseP h
  rw [he, List.countP_append, List.countP_append, List.countP_cons]
  split <;> omega

theorem not_mem_names_of_find? (h : tmpfsFindDirentLocked l name = none) : name ∉ l.map Dirent.name := by
  intro hm
  obtain ⟨x, hx, rfl⟩ := List.mem_map.1 hm
  exact (List.find?_eq_none.1 h) x hx (by simp)

/-- an entry appended under a fresh name is found, and detaching it gives the list back -/
theorem find?_append_fresh (h : tmpfsFindDirentLocked l name = none) (i : Nat) :
    tmpfsFindDirentLocked (l ++ [⟨name, i⟩]) name = some ⟨name, i⟩ := by
  simp [tmpfsFindDirentLocked, List.find?_append, show l.find? (·.name = name) = none from h]

theorem eraseP_append_fresh (h : tmpfsFindDirentLocked l name = none) (i : Nat) :
    (l ++ [(⟨name, i⟩ : Dirent)]).eraseP (·.name = name) = l := by
  rw [List.eraseP_append_right _ fun b hb => by simpa using List.find?_eq_none.1 h b hb]
  simp

/-- appending an entry under a fresh name keeps the names distinct -/
theorem nodup_names_append (hnd : (l.map Dirent.name).Nodup) (h : tmpfsFindDirentLocked l name = none) (i : Nat) :
    ((l ++ [(⟨name, i⟩ : Dirent)]).map Dirent.name).Nodup := by
  rw [List.map_append, List.nodup_append]
  refine ⟨hnd, List.nodup_singleton _, fun a ha b hb => ?_⟩
  rw [List.map_singleton, List.mem_singleton] at hb
  subst hb
  exact fun hab => not_mem_names_of_find? h (hab ▸ ha)

end Lists

/-! ## Counting entries -/

/-- `S_ISDIR` of an inode -/
def Fs.isDir (fs : Fs) (i : Nat) : Bool := sIsDir (fs.inodes i).mode

/-- the entries, over every live directory, that refer to `i` -/
def Fs.refs (fs : Fs) (i : Nat) : Nat := ∑ d ∈ fs.live, (fs.inodes d).children.countP (·.inode = i)

/-- the entries of `d` that are directories -/
def Fs.subdirs (fs : Fs) (d : Nat) : Nat := (fs.inodes d).children.countP (fun de => fs.isDir de.inode)

/-- `i` hangs in the tree: it is the root, or one entry refers to it -/
def Fs.Linked (fs : Fs) (root i : Nat) : Prop := i = root ∨ fs.refs i = 1

section Counting

variable {fs : Fs} {d i j n : Nat} {l : List Dirent}

/-- a sum over a finite set in which one summand changes -/
theorem sum_update_add {s : Finset Nat} {a : Nat} (ha : a ∈ s) (f : Nat → Nat) (b : Nat) :
    ∑ x ∈ s, Function.update f a b x + f a = ∑ x ∈ s, f x + b := by
  have hf := Finset.sum_update_of_mem ha f (f a)
  rw [Function.update_eq_self] at hf
  rw [Finset.sum_update_of_mem ha, hf]
  omega

@[simp] theorem isDir_setChildren : (fs.setChildren d l).isDir = fs.isDir := by
  funext j; simp [Fs.isDir]

@[simp] theorem isDir_setNlink : (fs.setNlink i n).isDir = fs.isDir := by
  funext j; simp [Fs.isDir]

@[simp] theorem refs_setNlink : (fs.setNlink i n).refs = fs.refs := by
  funext j; simp [Fs.refs]

/-- replacing the entries of a live directory trades its old references for the new ones -/
theorem refs_setChildren (hd : d ∈ fs.live) (i : Nat) :
    (fs.setChildren d l).refs i + (fs.inodes d).children.countP (·.inode = i) =
      fs.refs i + l.countP (·.inode = i) := by
  have hfun : (fun x => ((fs.setChildren d l).inodes x).children.countP (·.inode = i)) =
      Function.update (fun x => (fs.inodes x).children.countP (·.inode = i)) d (l.countP (·.inode = i)) := by
    funext x
    by_cases hx : x = d
    · subst hx; simp
    · rw [Function.update_of_ne hx, setChildren_inodes_ne hx]
  unfold Fs.refs
  rw [setChildren_live, hfun]
  exact sum_update_add hd _ _

theorem refs_append (hd : d ∈ fs.live) (x : Dirent) (i : Nat) :
    (fs.setChildren d ((fs.inodes d).children ++ [x])).refs i = fs.refs i + if x.inode = i then 1 else 0 := by
  have h := refs_setChildren (l := (fs.inodes d).children ++ [x]) hd i
  rw [List.countP_append] at h
  simp only [List.countP_singleton, decide_eq_true_eq] at h
  omega

theorem refs_eraseP (hd : d ∈ fs.live) {name : String} {de : Dirent}
    (hf : tmpfsFindDirentLocked (fs.inodes d).children name = some de) (i : Nat) :
    (fs.setChildren d ((fs.inodes d).children.eraseP (·.name = name))).refs i + (if de.inode = i then 1 else 0) =
      fs.refs i := by
  have h := refs_setChildren (l := (fs.inodes d).children.eraseP (·.name = name)) hd i
  rw [countP_eraseP hf] at h
  simp only [decide_eq_true_eq] at h
  omega

/-- an entry of a live directory counts for the inode it refers to -/
theorem refs_pos_of_mem (hd : d ∈ fs.live) {de : Dirent} (hde : de ∈ (fs.inodes d).children) :
    0 < fs.refs de.inode := by
  unfold Fs.refs
  have hle : (fs.inodes d).children.countP (·.inode = de.inode) ≤
      ∑ x ∈ fs.live, (fs.inodes x).children.countP (·.inode = de.inode) :=
    Finset.single_le_sum (f := fun x => (fs.inodes x).children.countP (·.inode = de.inode))
      (fun _ _ => Nat.zero_le _) hd
  have hpos : 0 < (fs.inodes d).children.countP (·.inode = de.inode) := List.countP_pos_iff.2 ⟨de, hde, by simp⟩
  omega

end Counting

/-! ## The invariant -/

/-- the namespace of tmpfs below the root `root` -/
structure NsOk (fs : Fs) (root : Nat) : Prop where
  live_lt : ∀ i ∈ fs.live, i < fs.nextId
  root_live : root ∈ fs.live
  root_dir : fs.isDir root = true
  /-- no entry refers to the root -/
  root_unref : fs.refs root = 0
  names_nodup : ∀ d ∈ fs.live, ((fs.inodes d).children.map Dirent.name).Nodup
  entry_live : ∀ d ∈ fs.live, ∀ de ∈ (fs.inodes d).children, de.inode ∈ fs.live
  file_leaf : ∀ i ∈ fs.live, fs.isDir i = false → (fs.inodes i).children = []
  file_nlink : ∀ i ∈ fs.live, fs.isDir i = false → (fs.inodes i).nlink = fs.refs i
  dir_refs : ∀ i ∈ fs.live, fs.isDir i = true → fs.refs i ≤ 1
  dir_nlink : ∀ i ∈ fs.live, fs.isDir i = true → fs.Linked root i → (fs.inodes i).nlink = 2 + fs.subdirs i
  /-- a directory with entries is never detached -/
  attached : ∀ i ∈ fs.live, fs.isDir i = true → (fs.inodes i).children ≠ [] → fs.Linked root i

/-- two states that agree on every live inode -/
structure Fs.Agrees (fs fs' : Fs) : Prop where
  live_eq : fs'.live = fs.live
  nextId_le : fs.nextId ≤ fs'.nextId
  inodes_eq : ∀ i ∈ fs.live, fs'.inodes i = fs.inodes i

section Agrees

variable {fs fs' : Fs} {root : Nat}

theorem Fs.Agrees.refl (fs : Fs) : fs.Agrees fs := ⟨rfl, le_rfl, fun _ _ => rfl⟩

theorem Fs.Agrees.refs_eq (h : fs.Agrees fs') : fs'.refs = fs.refs := by
  funext i
  unfold Fs.refs
  rw [h.live_eq]
  exact Finset.sum_congr rfl fun d hd => by rw [h.inodes_eq d hd]

theorem Fs.Agrees.isDir_eq (h : fs.Agrees fs') {i : Nat} (hi : i ∈ fs.live) : fs'.isDir i = fs.isDir i := by
  simp [Fs.isDir, h.inodes_eq i hi]

/-- the invariant sees only the live inodes -/
theorem NsOk.of_agrees (hs : NsOk fs root) (h : fs.Agrees fs') : NsOk fs' root := by
  have hrefs := h.refs_eq
  have hsub : ∀ d ∈ fs.live, fs'.subdirs d = fs.subdirs d := fun d hd => by
    unfold Fs.subdirs
    rw [h.inodes_eq d hd]
    exact List.countP_congr fun de hde => by rw [h.isDir_eq (hs.entry_live d hd de hde)]
  rw [← h.live_eq] at hsub
  have hlive := h.live_eq
  have hin : ∀ i ∈ fs'.live, fs'.inodes i = fs.inodes i := fun i hi => h.inodes_eq i (hlive ▸ hi)
  have hdir : ∀ i ∈ fs'.live, fs'.isDir i = fs.isDir i := fun i hi => h.isDir_eq (hlive ▸ hi)
  refine ⟨fun i hi => ?_, hlive ▸ hs.root_live, ?_, ?_, fun d hd => ?_, fun d hd de hde => ?_, fun i hi => ?_,
    fun i hi => ?_, fun i hi => ?_, fun i hi => ?_, fun i hi => ?_⟩
  · exact lt_of_lt_of_le (hs.live_lt i (hlive ▸ hi)) h.nextId_le
  · rw [hdir root (hlive ▸ hs.root_live)]; exact hs.root_dir
  · rw [hrefs]; exact hs.root_unref
  · rw [hin d hd]; exact hs.names_nodup d (hlive ▸ hd)
  · rw [hin d hd] at hde; exact hlive ▸ hs.entry_live d (hlive ▸ hd) de hde
  · rw [hdir i hi, hin i hi]; exact hs.file_leaf i (hlive ▸ hi)
  · rw [hdir i hi, hin i hi, hrefs]; exact hs.file_nlink i (hlive ▸ hi)
  · rw [hdir i hi, hrefs]; exact hs.dir_refs i (hlive ▸ hi)
  · rw [hdir i hi, hin i hi, hsub i hi, Fs.Linked, hrefs]; exact hs.dir_nlink i (hlive ▸ hi)
  · rw [hdir i hi, hin i hi, Fs.Linked, hrefs]; exact hs.attached i (hlive ▸ hi)

end Agrees

/-! ## Creating -/

theorem sIsDir_of_sIsLnk {mode : Nat} (h : sIsLnk mode = true) : sIsDir mode = false := by
  simp only [sIsLnk, beq_iff_eq] at h
  simp [sIsDir, h, S_IFLNK, S_IFDIR]

/-- the state after a create that succeeds: a fresh inode, its entry last in `dir`, and for a directory one more
link of `dir` -/
def created (fs : Fs) (dir : Nat) (name : String) (mode : Nat) : Fs :=
  let fs1 := (tmpfsNewInode fs (fs.inodes dir).sb mode).1
  let fs2 := fs1.setChildren dir ((fs1.inodes dir).children ++ [⟨name, fs.nextId⟩])
  if sIsDir mode then fs2.setNlink dir ((fs2.inodes dir).nlink + 1) else fs2

section Create

variable {fs : Fs} {root dir : Nat} {name : String} {mode : Nat}

theorem Fs.Agrees.of_newInode_free (hfresh : fs.nextId ∉ fs.live) (sb : Nat) :
    fs.Agrees ((tmpfsNewInode fs sb mode).1.free fs.nextId) :=
  ⟨by simp [Finset.erase_insert hfresh], by simp, fun i hi => tmpfsNewInode_inodes_ne fun h => hfresh (h ▸ hi)⟩

/-- what `tmpfs_add_dirent` does: it fails and changes nothing, or the entry goes last under a fresh name -/
theorem tmpfsAddDirent_cases (fs : Fs) (dir : Nat) (name : String) (i : Nat) (ok : Bool) :
    ((tmpfsAddDirent fs dir name i ok).1 = fs ∧ (tmpfsAddDirent fs dir name i ok).2 < 0) ∨
      (tmpfsFindDirentLocked (fs.inodes dir).children name = none ∧
        tmpfsAddDirent fs dir name i ok = (fs.setChildren dir ((fs.inodes dir).children ++ [⟨name, i⟩]), 0)) := by
  unfold tmpfsAddDirent
  split_ifs with h1 h2 h3
  · exact .inl ⟨rfl, by simp⟩
  · exact .inl ⟨rfl, by simp⟩
  · exact .inl ⟨rfl, by simp⟩
  · exact .inr ⟨by simpa using h3, rfl⟩

/-- what `tmpfs_create_common` does: it fails and leaves the live inodes, or it makes `created` -/
theorem tmpfsCreateCommon_cases (hd : dir ∈ fs.live) (hfresh : fs.nextId ∉ fs.live) (name : String) (mode : Nat)
    (target : Option String) (a : CreateAlloc) :
    ((tmpfsCreateCommon fs dir name mode target a).2 < 0 ∧
        fs.Agrees (tmpfsCreateCommon fs dir name mode target a).1) ∨
      (fs.isDir dir = true ∧ tmpfsFindDirentLocked (fs.inodes dir).children name = none ∧
        tmpfsCreateCommon fs dir name mode target a = (created fs dir name mode, 0)) := by
  have hne : dir ≠ fs.nextId := fun h => hfresh (h ▸ hd)
  unfold tmpfsCreateCommon
  split
  · exact .inl ⟨by simp, Fs.Agrees.refl fs⟩
  rename_i hdir
  simp only [Bool.not_eq_true', Bool.not_eq_false] at hdir
  have hfind : tmpfsFindDirent fs dir name = tmpfsFindDirentLocked (fs.inodes dir).children name := by
    simp [tmpfsFindDirent, hdir]
  split
  · exact .inl ⟨by simp, Fs.Agrees.refl fs⟩
  rename_i hex
  rw [hfind, Option.isSome_iff_ne_none, not_not] at hex
  split
  · exact .inl ⟨by simp, Fs.Agrees.refl fs⟩
  split
  rename_i fs1 n hnew
  obtain rfl : (tmpfsNewInode fs (fs.inodes dir).sb mode).1 = fs1 := congrArg Prod.fst hnew
  obtain rfl : fs.nextId = n := congrArg Prod.snd hnew
  have hsame : ((tmpfsNewInode fs (fs.inodes dir).sb mode).1.inodes dir) = fs.inodes dir := tmpfsNewInode_inodes_ne hne
  split
  rename_i fs2 ret hadd
  rcases tmpfsAddDirent_cases (tmpfsNewInode fs (fs.inodes dir).sb mode).1 dir name fs.nextId a.direntOk with
    ⟨h1, h2⟩ | ⟨-, h⟩
  · rw [hadd] at h1 h2
    subst h1
    rw [if_pos h2]
    exact .inl ⟨h2, Fs.Agrees.of_newInode_free hfresh _⟩
  rw [hadd, hsame] at h
  obtain ⟨rfl, rfl⟩ := Prod.mk.inj h
  rw [if_neg (lt_irrefl 0)]
  by_cases hlnk : sIsLnk mode = true ∧ target.isSome = true ∧ a.targetRet < 0
  · rw [if_pos hlnk]
    left
    refine ⟨hlnk.2.2, ?_⟩
    rw [if_neg (by rw [sIsDir_of_sIsLnk hlnk.1]; decide)]
    have hdet : (tmpfsDetachDirent ((tmpfsNewInode fs (fs.inodes dir).sb mode).1.setChildren dir
        ((fs.inodes dir).children ++ [⟨name, fs.nextId⟩])) dir name).1 = (tmpfsNewInode fs (fs.inodes dir).sb mode).1 := by
      simp only [tmpfsDetachDirent, setChildren_children_self, find?_append_fresh hex, eraseP_append_fresh hex,
        setChildren_setChildren]
      exact setChildren_eq_self (by rw [hsame])
    rw [hdet]
    exact Fs.Agrees.of_newInode_free hfresh _
  · rw [if_neg hlnk]
    exact .inr ⟨hdir, hex, by simp only [created, hsame]⟩

end Create

/-! ### What a create leaves -/

section Created

variable {fs : Fs} {root dir j : Nat} {name : String} {mode : Nat}

theorem refs_tmpfsNewInode (hfresh : fs.nextId ∉ fs.live) (sb mode : Nat) :
    (tmpfsNewInode fs sb mode).1.refs = fs.refs := by
  funext j
  unfold Fs.refs
  rw [tmpfsNewInode_live, Finset.sum_insert hfresh, tmpfsNewInode_inodes_self, List.countP_nil, zero_add]
  exact Finset.sum_congr rfl fun x hx => by rw [tmpfsNewInode_inodes_ne fun h => hfresh (h ▸ hx)]

/-- no entry refers to an inode outside the arena -/
theorem NsOk.refs_eq_zero (hs : NsOk fs root) (hj : j ∉ fs.live) : fs.refs j = 0 := by
  refine Finset.sum_eq_zero fun d hd => List.countP_eq_zero.2 fun de hde h => hj ?_
  simp only [decide_eq_true_eq] at h
  exact h ▸ hs.entry_live d hd de hde

@[simp] theorem created_live : (created fs dir name mode).live = insert fs.nextId fs.live := by
  unfold created; split <;> simp

@[simp] theorem created_nextId : (created fs dir name mode).nextId = fs.nextId + 1 := by
  unfold created; split <;> simp

theorem isDir_created (hj : j ≠ fs.nextId) : (created fs dir name mode).isDir j = fs.isDir j := by
  unfold created; split <;> simp [Fs.isDir, tmpfsNewInode_inodes_ne hj]

theorem isDir_created_new : (created fs dir name mode).isDir fs.nextId = sIsDir mode := by
  unfold created; split <;> simp [Fs.isDir]

theorem refs_created (hd : dir ∈ fs.live) (hfresh : fs.nextId ∉ fs.live) (j : Nat) :
    (created fs dir name mode).refs j = fs.refs j + if fs.nextId = j then 1 else 0 := by
  have h := refs_append (show dir ∈ (tmpfsNewInode fs (fs.inodes dir).sb mode).1.live by simp [hd])
    ⟨name, fs.nextId⟩ j
  rw [refs_tmpfsNewInode hfresh] at h
  unfold created
  split <;> simp only [refs_setNlink] <;> exact h

theorem children_created_self (hne : dir ≠ fs.nextId) :
    ((created fs dir name mode).inodes dir).children = (fs.inodes dir).children ++ [⟨name, fs.nextId⟩] := by
  unfold created; split <;> simp [tmpfsNewInode_inodes_ne hne]

theorem children_created_new (hne : dir ≠ fs.nextId) : ((created fs dir name mode).inodes fs.nextId).children = [] := by
  unfold created; split <;> simp [setChildren_inodes_ne (Ne.symm hne)]

theorem children_created_ne (h1 : j ≠ dir) (h2 : j ≠ fs.nextId) :
    ((created fs dir name mode).inodes j).children = (fs.inodes j).children := by
  unfold created; split <;> simp [setChildren_inodes_ne h1, tmpfsNewInode_inodes_ne h2]

theorem nlink_created_self (hne : dir ≠ fs.nextId) :
    ((created fs dir name mode).inodes dir).nlink = (fs.inodes dir).nlink + if sIsDir mode then 1 else 0 := by
  unfold created; split <;> simp [*, tmpfsNewInode_inodes_ne hne]

theorem nlink_created_new (hne : dir ≠ fs.nextId) :
    ((created fs dir name mode).inodes fs.nextId).nlink = if sIsDir mode then 2 else 1 := by
  unfold created; split <;> simp [*, setNlink_inodes_ne (Ne.symm hne)]

theorem nlink_created_ne (h1 : j ≠ dir) (h2 : j ≠ fs.nextId) :
    ((created fs dir name mode).inodes j).nlink = (fs.inodes j).nlink := by
  unfold created; split <;> simp [setNlink_inodes_ne h1, tmpfsNewInode_inodes_ne h2]

/-- a create in a directory that hangs in the tree, under a name it does not hold, keeps the invariant -/
theorem NsOk.of_create (hs : NsOk fs root) (hd : dir ∈ fs.live) (hdir : fs.isDir dir = true)
    (hlink : fs.Linked root dir) (hname : tmpfsFindDirentLocked (fs.inodes dir).children name = none) :
    NsOk (created fs dir name mode) root := by
  have hfresh : fs.nextId ∉ fs.live := fun h => lt_irrefl _ (hs.live_lt _ h)
  have hold : ∀ i ∈ fs.live, i ≠ fs.nextId := fun i hi h => hfresh (h ▸ hi)
  have hne : dir ≠ fs.nextId := hold dir hd
  have hn0 : fs.refs fs.nextId = 0 := hs.refs_eq_zero hfresh
  have hrefs : ∀ j, (created fs dir name mode).refs j = fs.refs j + if fs.nextId = j then 1 else 0 :=
    refs_created hd hfresh
  have hkind : ∀ d ∈ fs.live, ∀ de ∈ (fs.inodes d).children,
      (created fs dir name mode).isDir de.inode = fs.isDir de.inode := fun d hd' de hde =>
    isDir_created (hold _ (hs.entry_live d hd' de hde))
  have hsub : ∀ d ∈ fs.live, d ≠ dir → (created fs dir name mode).subdirs d = fs.subdirs d := fun d hd' hdd => by
    unfold Fs.subdirs
    rw [children_created_ne hdd (hold d hd')]
    exact List.countP_congr fun de hde => by rw [hkind d hd' de hde]
  have hsub_dir : (created fs dir name mode).subdirs dir = fs.subdirs dir + if sIsDir mode then 1 else 0 := by
    unfold Fs.subdirs
    rw [children_created_self hne, List.countP_append, List.countP_singleton, isDir_created_new,
      List.countP_congr fun de hde => by rw [hkind dir hd de hde]]
  refine ⟨fun i hi => ?_, ?_, ?_, ?_, fun d hd' => ?_, fun d hd' de hde => ?_, fun i hi => ?_, fun i hi => ?_,
    fun i hi => ?_, fun i hi => ?_, fun i hi => ?_⟩
  · rw [created_live, Finset.mem_insert] at hi
    rcases hi with rfl | hi
    · simp
    · simpa using Nat.lt_succ_of_lt (hs.live_lt i hi)
  · simp [hs.root_live]
  · rw [isDir_created (hold root hs.root_live)]; exact hs.root_dir
  · rw [hrefs, hs.root_unref, if_neg (hold root hs.root_live).symm]
  · rw [created_live, Finset.mem_insert] at hd'
    rcases hd' with rfl | hd'
    · rw [children_created_new hne]; exact List.nodup_nil
    by_cases hdd : d = dir
    · subst hdd
      rw [children_created_self hne]
      exact nodup_names_append (hs.names_nodup d hd') hname _
    · rw [children_created_ne hdd (hold d hd')]; exact hs.names_nodup d hd'
  · rw [created_live, Finset.mem_insert] at hd' ⊢
    rcases hd' with rfl | hd'
    · rw [children_created_new hne] at hde; exact (List.not_mem_nil hde).elim
    by_cases hdd : d = dir
    · subst hdd
      rw [children_created_self hne, List.mem_append, List.mem_singleton] at hde
      rcases hde with hde | rfl
      · exact .inr (hs.entry_live d hd' de hde)
      · exact .inl rfl
    · rw [children_created_ne hdd (hold d hd')] at hde
      exact .inr (hs.entry_live d hd' de hde)
  · rw [created_live, Finset.mem_insert] at hi
    rcases hi with rfl | hi
    · intro; exact children_created_new hne
    rw [isDir_created (hold i hi)]
    intro hfile
    have hid : i ≠ dir := fun h => by rw [h, hdir] at hfile; exact Bool.noConfusion hfile
    rw [children_created_ne hid (hold i hi)]
    exact hs.file_leaf i hi hfile
  · rw [created_live, Finset.mem_insert] at hi
    rcases hi with rfl | hi
    · rw [isDir_created_new]
      intro hfile
      rw [nlink_created_new hne, hrefs, hn0, hfile]
      simp
    rw [isDir_created (hold i hi)]
    intro hfile
    have hid : i ≠ dir := fun h => by rw [h, hdir] at hfile; exact Bool.noConfusion hfile
    rw [nlink_created_ne hid (hold i hi), hrefs, if_neg (hold i hi).symm, add_zero]
    exact hs.file_nlink i hi hfile
  · rw [created_live, Finset.mem_insert] at hi
    rcases hi with rfl | hi
    · intro; rw [hrefs, hn0]; simp
    rw [isDir_created (hold i hi), hrefs, if_neg (hold i hi).symm, add_zero]
    exact hs.dir_refs i hi
  · rw [created_live, Finset.mem_insert] at hi
    rcases hi with rfl | hi
    · rw [isDir_created_new]
      intro hdirn _
      rw [nlink_created_new hne, hdirn, Fs.subdirs, children_created_new hne]
      rfl
    have hni : fs.nextId ≠ i := (hold i hi).symm
    rw [isDir_created hni.symm]
    intro hdi hli
    have hli' : fs.Linked root i := by rwa [Fs.Linked, hrefs, if_neg hni, add_zero] at hli
    by_cases hid : i = dir
    · subst hid
      rw [nlink_created_self hne, hsub_dir, hs.dir_nlink i hi hdi hli', Nat.add_assoc]
    · rw [nlink_created_ne hid hni.symm, hsub i hi hid]
      exact hs.dir_nlink i hi hdi hli'
  · rw [created_live, Finset.mem_insert] at hi
    rcases hi with rfl | hi
    · intro _ hc; exact absurd (children_created_new hne) hc
    have hni : fs.nextId ≠ i := (hold i hi).symm
    rw [isDir_created hni.symm]
    intro hdi hc
    have hlinked : fs.Linked root i := by
      by_cases hid : i = dir
      · exact hid ▸ hlink
      · rw [children_created_ne hid hni.symm] at hc
        exact hs.attached i hi hdi hc
    rwa [Fs.Linked, hrefs, if_neg hni, add_zero]

theorem tmpfsCreateCommon_nsOk (hs : NsOk fs root) (hd : dir ∈ fs.live) (hlink : fs.Linked root dir)
    (target : Option String) (a : CreateAlloc) : NsOk (tmpfsCreateCommon fs dir name mode target a).1 root := by
  have hfresh : fs.nextId ∉ fs.live := fun h => lt_irrefl _ (hs.live_lt _ h)
  rcases tmpfsCreateCommon_cases hd hfresh name mode target a with ⟨-, hag⟩ | ⟨hdir, hname, heq⟩
  · exact hs.of_agrees hag
  · rw [heq]; exact hs.of_create hd hdir hlink hname

end Created

/-! ## Linking -/

section Link

variable {fs : Fs} {root dir : Nat} {name : String}

/-- the state after a link that succeeds: the entry last in `dir`, and one more link of the inode -/
def linked (fs : Fs) (i dir : Nat) (name : String) : Fs :=
  (fs.setChildren dir ((fs.inodes dir).children ++ [⟨name, i⟩])).setNlink i ((fs.inodes i).nlink + 1)

/-- what `tmpfs_link` does: it fails and changes nothing, or it makes `linked` for a non-directory -/
theorem tmpfsLink_cases (fs : Fs) (old : Option Nat) (dir : Nat) (name : String) (ok : Bool) :
    ((tmpfsLink fs old dir name ok).1 = fs ∧ (tmpfsLink fs old dir name ok).2 < 0) ∨
      (∃ i, old = some i ∧ fs.isDir i = false ∧ tmpfsFindDirentLocked (fs.inodes dir).children name = none ∧
        tmpfsLink fs old dir name ok = (linked fs i dir name, 0)) := by
  unfold tmpfsLink
  rcases old with _ | i
  · exact .inl ⟨rfl, by simp⟩
  dsimp only
  split
  · exact .inl ⟨rfl, by simp⟩
  rename_i hdir
  split
  · exact .inl ⟨rfl, by simp⟩
  rcases tmpfsAddDirent_cases fs dir name i ok with ⟨h1, h2⟩ | ⟨hname, heq⟩
  · left
    rw [if_pos h2]
    exact ⟨h1, h2⟩
  · right
    refine ⟨i, rfl, by simpa [Fs.isDir] using hdir, hname, ?_⟩
    rw [heq]
    simp [linked]

/-- a link to a live non-directory, from a directory that hangs in the tree, keeps the invariant -/
theorem NsOk.of_link (hs : NsOk fs root) {i : Nat} (hi : i ∈ fs.live) (hfile : fs.isDir i = false)
    (hd : dir ∈ fs.live) (hdir : fs.isDir dir = true) (hlink : fs.Linked root dir)
    (hname : tmpfsFindDirentLocked (fs.inodes dir).children name = none) : NsOk (linked fs i dir name) root := by
  have hid : i ≠ dir := fun h => by rw [h, hdir] at hfile; exact Bool.noConfusion hfile
  have hrefs : ∀ j, (linked fs i dir name).refs j = fs.refs j + if i = j then 1 else 0 := fun j => by
    rw [linked, refs_setNlink, refs_append hd]
  have hdirs : (linked fs i dir name).isDir = fs.isDir := by simp [linked]
  have hchildren : ∀ j, j ≠ dir → ((linked fs i dir name).inodes j).children = (fs.inodes j).children := fun j hj => by
    simp [linked, setChildren_inodes_ne hj]
  have hnlink : ∀ j, j ≠ i → ((linked fs i dir name).inodes j).nlink = (fs.inodes j).nlink := fun j hj => by
    simp [linked, setNlink_inodes_ne hj]
  have hsub : ∀ j, (linked fs i dir name).subdirs j = fs.subdirs j := fun j => by
    by_cases hj : j = dir
    · subst hj
      simp [linked, Fs.subdirs, List.countP_append, hfile]
    · simp [linked, Fs.subdirs, setChildren_inodes_ne hj]
  have hlinked : ∀ j, j ≠ i → ((linked fs i dir name).Linked root j ↔ fs.Linked root j) := fun j hj => by
    rw [Fs.Linked, Fs.Linked, hrefs, if_neg (Ne.symm hj), add_zero]
  have hroot : i ≠ root := fun h => by rw [h, hs.root_dir] at hfile; exact Bool.noConfusion hfile
  refine ⟨fun j hj => hs.live_lt j hj, hs.root_live, by rw [hdirs]; exact hs.root_dir,
    by rw [hrefs, if_neg hroot, hs.root_unref], fun d hd' => ?_, fun d hd' de hde => ?_, fun j hj => ?_,
    fun j hj => ?_, fun j hj => ?_, fun j hj => ?_, fun j hj => ?_⟩
  · by_cases hdd : d = dir
    · subst hdd
      simpa [linked] using nodup_names_append (hs.names_nodup d hd') hname i
    · rw [hchildren d hdd]; exact hs.names_nodup d hd'
  · by_cases hdd : d = dir
    · subst hdd
      simp only [linked, setNlink_children, setChildren_children_self, List.mem_append, List.mem_singleton] at hde
      rcases hde with hde | rfl
      · exact hs.entry_live d hd' de hde
      · exact hi
    · rw [hchildren d hdd] at hde; exact hs.entry_live d hd' de hde
  · rw [hdirs]
    intro hf
    have hjd : j ≠ dir := fun h => by rw [h, hdir] at hf; exact Bool.noConfusion hf
    rw [hchildren j hjd]
    exact hs.file_leaf j hj hf
  · rw [hdirs]
    intro hf
    by_cases hji : j = i
    · subst hji
      rw [hrefs, if_pos rfl, ← hs.file_nlink j hj hf]
      simp [linked]
    · rw [hnlink j hji, hrefs, if_neg (Ne.symm hji), add_zero]
      exact hs.file_nlink j hj hf
  · rw [hdirs]
    intro hdj
    have hji : i ≠ j := fun h => by rw [h, hdj] at hfile; exact Bool.noConfusion hfile
    rw [hrefs, if_neg hji, add_zero]
    exact hs.dir_refs j hj hdj
  · rw [hdirs]
    intro hdj hl
    have hji : j ≠ i := fun h => by rw [h, hfile] at hdj; exact Bool.noConfusion hdj
    rw [hnlink j hji, hsub]
    exact hs.dir_nlink j hj hdj ((hlinked j hji).1 hl)
  · rw [hdirs]
    intro hdj hc
    have hji : j ≠ i := fun h => by rw [h, hfile] at hdj; exact Bool.noConfusion hdj
    rw [hlinked j hji]
    by_cases hjd : j = dir
    · exact hjd ▸ hlink
    · rw [hchildren j hjd] at hc
      exact hs.attached j hj hdj hc

theorem tmpfsLink_nsOk (hs : NsOk fs root) {old : Option Nat} (hold : ∀ i, old = some i → i ∈ fs.live)
    (hd : dir ∈ fs.live) (hdir : fs.isDir dir = true) (hlink : fs.Linked root dir) (ok : Bool) :
    NsOk (tmpfsLink fs old dir name ok).1 root := by
  rcases tmpfsLink_cases fs old dir name ok with ⟨h, -⟩ | ⟨i, rfl, hfile, hname, heq⟩
  · rw [h]; exact hs
  · rw [heq]; exact hs.of_link (hold i rfl) hfile hd hdir hlink hname

end Link

/-! ## Removing -/

section Remove

variable {fs : Fs} {root dir : Nat} {name : String} {de : Dirent}

/-- the state after an unlink that succeeds: the entry out of `dir`, one link fewer -/
def unlinked (fs : Fs) (dir : Nat) (name : String) (de : Dirent) : Fs :=
  (fs.setChildren dir ((fs.inodes dir).children.eraseP (·.name = name))).setNlink de.inode
    ((fs.inodes de.inode).nlink - 1)

/-- the state after an rmdir that succeeds: the entry out of `dir`, one link fewer for `dir` and two for the
removed directory -/
def rmdired (fs : Fs) (dir : Nat) (name : String) (de : Dirent) : Fs :=
  let fs2 := (fs.setChildren dir ((fs.inodes dir).children.eraseP (·.name = name))).setNlink dir
    ((fs.inodes dir).nlink - 1)
  let n := (fs2.inodes de.inode).nlink
  fs2.setNlink de.inode (if 2 ≤ n then n - 2 else n)

theorem tmpfsDetachDirent_cases (fs : Fs) (dir : Nat) (name : String) :
    (tmpfsFindDirentLocked (fs.inodes dir).children name = none ∧ tmpfsDetachDirent fs dir name = (fs, none)) ∨
      ∃ de, tmpfsFindDirentLocked (fs.inodes dir).children name = some de ∧
        tmpfsDetachDirent fs dir name =
          (fs.setChildren dir ((fs.inodes dir).children.eraseP (·.name = name)), some de) := by
  unfold tmpfsDetachDirent
  rcases h : tmpfsFindDirentLocked (fs.inodes dir).children name with _ | de
  · exact .inl ⟨rfl, rfl⟩
  · exact .inr ⟨de, rfl, rfl⟩

/-- what `tmpfs_unlink` does: it fails and changes nothing, or it makes `unlinked` for the entry of the name -/
theorem tmpfsUnlink_cases (fs : Fs) (dir : Nat) (name : String) (inode : Option Nat) :
    ((tmpfsUnlink fs dir name inode).1 = fs ∧ (tmpfsUnlink fs dir name inode).2 < 0) ∨
      (∃ i de, inode = some i ∧ fs.isDir i = false ∧ tmpfsFindDirentLocked (fs.inodes dir).children name = some de ∧
        tmpfsUnlink fs dir name inode = (unlinked fs dir name de, 0)) := by
  unfold tmpfsUnlink
  rcases inode with _ | i
  · exact .inl ⟨rfl, by simp⟩
  dsimp only
  split
  · exact .inl ⟨rfl, by simp⟩
  rename_i hfile
  rcases tmpfsDetachDirent_cases fs dir name with ⟨-, h⟩ | ⟨de, hf, h⟩
  · rw [h]; exact .inl ⟨rfl, by simp⟩
  · rw [h]
    exact .inr ⟨i, de, rfl, by simpa [Fs.isDir] using hfile, hf, by simp [unlinked]⟩

/-- what `tmpfs_rmdir` does: it fails and changes nothing, or it makes `rmdired` for the entry of the name, the
dentry's inode being an empty directory -/
theorem tmpfsRmdir_cases (fs : Fs) (dir : Nat) (name : String) (inode : Option Nat) :
    ((tmpfsRmdir fs dir name inode).1 = fs ∧ (tmpfsRmdir fs dir name inode).2 < 0) ∨
      (∃ i de, inode = some i ∧ fs.isDir i = true ∧ (fs.inodes i).children = [] ∧
        tmpfsFindDirentLocked (fs.inodes dir).children name = some de ∧
        tmpfsRmdir fs dir name inode = (rmdired fs dir name de, 0)) := by
  unfold tmpfsRmdir
  rcases inode with _ | i
  · exact .inl ⟨rfl, by simp⟩
  dsimp only
  split
  · exact .inl ⟨rfl, by simp⟩
  rename_i hdir
  split
  · exact .inl ⟨rfl, by simp⟩
  rename_i hempty
  rcases tmpfsDetachDirent_cases fs dir name with ⟨-, h⟩ | ⟨de, hf, h⟩
  · rw [h]; exact .inl ⟨rfl, by simp⟩
  · rw [h]
    refine .inr ⟨i, de, rfl, by simpa [Fs.isDir] using hdir, by simpa using hempty, hf, ?_⟩
    simp [rmdired]

/-- an entry found in a live directory is one of its entries, of a live inode that some entry refers to -/
theorem NsOk.found (hs : NsOk fs root) (hd : dir ∈ fs.live)
    (hf : tmpfsFindDirentLocked (fs.inodes dir).children name = some de) :
    de ∈ (fs.inodes dir).children ∧ de.inode ∈ fs.live ∧ 0 < fs.refs de.inode ∧ fs.isDir dir = true := by
  have hde : de ∈ (fs.inodes dir).children := List.mem_of_find?_eq_some hf
  refine ⟨hde, hs.entry_live dir hd de hde, refs_pos_of_mem hd hde, ?_⟩
  by_contra hdir
  rw [hs.file_leaf dir hd (by simpa using hdir)] at hde
  exact List.not_mem_nil hde

/-- an unlink of a non-directory's entry keeps the invariant -/
theorem NsOk.of_unlink (hs : NsOk fs root) (hd : dir ∈ fs.live)
    (hf : tmpfsFindDirentLocked (fs.inodes dir).children name = some de) (hfile : fs.isDir de.inode = false) :
    NsOk (unlinked fs dir name de) root := by
  obtain ⟨-, he, hpos, hdir⟩ := hs.found hd hf
  have herase : ∀ j, (unlinked fs dir name de).refs j + (if de.inode = j then 1 else 0) = fs.refs j := fun j => by
    rw [unlinked, refs_setNlink, refs_eraseP hd hf]
  have hdirs : (unlinked fs dir name de).isDir = fs.isDir := by simp [unlinked]
  have hsubl : ∀ j, (((unlinked fs dir name de).inodes j).children).Sublist (fs.inodes j).children := fun j => by
    by_cases hj : j = dir
    · subst hj; simpa [unlinked] using List.eraseP_sublist
    · simp [unlinked, setChildren_inodes_ne hj]
  have hnlink : ∀ j, j ≠ de.inode → ((unlinked fs dir name de).inodes j).nlink = (fs.inodes j).nlink := fun j hj => by
    simp [unlinked, setNlink_inodes_ne hj]
  have hsub : ∀ j, (unlinked fs dir name de).subdirs j = fs.subdirs j := fun j => by
    by_cases hj : j = dir
    · subst hj
      have h := countP_eraseP hf (fun de => fs.isDir de.inode)
      simp only [hfile, Bool.false_eq_true, if_false, add_zero] at h
      simp [unlinked, Fs.subdirs, h]
    · simp [unlinked, Fs.subdirs, setChildren_inodes_ne hj]
  have hsame : ∀ j, de.inode ≠ j → (unlinked fs dir name de).refs j = fs.refs j := fun j hj => by
    have := herase j; rw [if_neg hj, add_zero] at this; exact this
  refine ⟨fun j hj => hs.live_lt j hj, hs.root_live, by rw [hdirs]; exact hs.root_dir, ?_, fun d hd' => ?_,
    fun d hd' x hx => hs.entry_live d hd' x ((hsubl d).subset hx), fun j hj => ?_, fun j hj => ?_, fun j hj => ?_,
    fun j hj => ?_, fun j hj => ?_⟩
  · have := herase root; rw [hs.root_unref] at this; omega
  · exact (hs.names_nodup d hd').sublist ((hsubl d).map _)
  · rw [hdirs]; intro hj'
    exact List.eq_nil_of_sublist_nil (hs.file_leaf j hj hj' ▸ hsubl j)
  · rw [hdirs]; intro hj'
    by_cases hje : j = de.inode
    · subst hje
      have h1 := herase de.inode
      rw [if_pos rfl] at h1
      have h2 := hs.file_nlink de.inode hj hj'
      have h3 : ((unlinked fs dir name de).inodes de.inode).nlink = (fs.inodes de.inode).nlink - 1 := by
        simp [unlinked]
      rw [h3]
      omega
    · rw [hnlink j hje, hsame j (Ne.symm hje)]; exact hs.file_nlink j hj hj'
  · rw [hdirs]; intro hj'
    have := herase j; have := hs.dir_refs j hj hj'; omega
  · rw [hdirs]; intro hj' hl
    have hje : de.inode ≠ j := fun h => by rw [← h, hfile] at hj'; exact Bool.noConfusion hj'
    rw [hnlink j (Ne.symm hje), hsub]
    refine hs.dir_nlink j hj hj' ?_
    rwa [Fs.Linked, ← hsame j hje]
  · rw [hdirs]; intro hj' hc
    have hje : de.inode ≠ j := fun h => by rw [← h, hfile] at hj'; exact Bool.noConfusion hj'
    have hc' : (fs.inodes j).children ≠ [] := fun h => hc (List.eq_nil_of_sublist_nil (h ▸ hsubl j))
    rw [Fs.Linked, hsame j hje]
    exact hs.attached j hj hj' hc'

theorem tmpfsUnlink_nsOk (hs : NsOk fs root) (hd : dir ∈ fs.live) {inode : Option Nat}
    (hdentry : ∀ de, tmpfsFindDirentLocked (fs.inodes dir).children name = some de → inode = some de.inode) :
    NsOk (tmpfsUnlink fs dir name inode).1 root := by
  rcases tmpfsUnlink_cases fs dir name inode with ⟨h, -⟩ | ⟨i, de, rfl, hfile, hf, heq⟩
  · rw [h]; exact hs
  · obtain rfl : i = de.inode := Option.some.inj (hdentry de hf)
    rw [heq]; exact hs.of_unlink hd hf hfile

/-- an rmdir of an empty directory's entry keeps the invariant -/
theorem NsOk.of_rmdir (hs : NsOk fs root) (hd : dir ∈ fs.live)
    (hf : tmpfsFindDirentLocked (fs.inodes dir).children name = some de) (hdirE : fs.isDir de.inode = true)
    (hempty : (fs.inodes de.inode).children = []) : NsOk (rmdired fs dir name de) root := by
  obtain ⟨hde, he, hpos, hdir⟩ := hs.found hd hf
  have hed : de.inode ≠ dir := fun h => by rw [h] at hempty; rw [hempty] at hde; exact List.not_mem_nil hde
  have her : de.inode ≠ root := fun h => by rw [h, hs.root_unref] at hpos; exact lt_irrefl 0 hpos
  have hone : fs.refs de.inode = 1 := le_antisymm (hs.dir_refs _ he hdirE) hpos
  have herase : ∀ j, (rmdired fs dir name de).refs j + (if de.inode = j then 1 else 0) = fs.refs j := fun j => by
    rw [rmdired, refs_setNlink, refs_setNlink, refs_eraseP hd hf]
  have hsame : ∀ j, de.inode ≠ j → (rmdired fs dir name de).refs j = fs.refs j := fun j hj => by
    have := herase j; rw [if_neg hj, add_zero] at this; exact this
  have hdirs : (rmdired fs dir name de).isDir = fs.isDir := by simp [rmdired]
  have hsubl : ∀ j, (((rmdired fs dir name de).inodes j).children).Sublist (fs.inodes j).children := fun j => by
    by_cases hj : j = dir
    · subst hj; simpa [rmdired] using List.eraseP_sublist
    · simp [rmdired, setChildren_inodes_ne hj]
  have hnlink : ∀ j, j ≠ de.inode → j ≠ dir → ((rmdired fs dir name de).inodes j).nlink = (fs.inodes j).nlink :=
    fun j h1 h2 => by simp [rmdired, setNlink_inodes_ne h1, setNlink_inodes_ne h2]
  have hnlink_dir : ((rmdired fs dir name de).inodes dir).nlink = (fs.inodes dir).nlink - 1 := by
    simp [rmdired, setNlink_inodes_ne (Ne.symm hed)]
  have hsub : ∀ j, j ≠ dir → (rmdired fs dir name de).subdirs j = fs.subdirs j := fun j hj => by
    simp [rmdired, Fs.subdirs, setChildren_inodes_ne hj]
  have hsub_dir : (rmdired fs dir name de).subdirs dir + 1 = fs.subdirs dir := by
    have h := countP_eraseP hf (fun de => fs.isDir de.inode)
    simp only [hdirE, if_true] at h
    simp [rmdired, Fs.subdirs, h]
  have hlinked : ∀ j, de.inode ≠ j → ((rmdired fs dir name de).Linked root j ↔ fs.Linked root j) := fun j hj => by
    rw [Fs.Linked, Fs.Linked, hsame j hj]
  refine ⟨fun j hj => hs.live_lt j hj, hs.root_live, by rw [hdirs]; exact hs.root_dir, ?_, fun d hd' => ?_,
    fun d hd' x hx => hs.entry_live d hd' x ((hsubl d).subset hx), fun j hj => ?_, fun j hj => ?_, fun j hj => ?_,
    fun j hj => ?_, fun j hj => ?_⟩
  · have := herase root; rw [hs.root_unref] at this; omega
  · exact (hs.names_nodup d hd').sublist ((hsubl d).map _)
  · rw [hdirs]; intro hj'
    exact List.eq_nil_of_sublist_nil (hs.file_leaf j hj hj' ▸ hsubl j)
  · rw [hdirs]; intro hj'
    have hje : j ≠ de.inode := fun h => by rw [h, hdirE] at hj'; exact Bool.noConfusion hj'
    have hjd : j ≠ dir := fun h => by rw [h, hdir] at hj'; exact Bool.noConfusion hj'
    rw [hnlink j hje hjd, hsame j (Ne.symm hje)]
    exact hs.file_nlink j hj hj'
  · rw [hdirs]; intro hj'
    have := herase j; have := hs.dir_refs j hj hj'; omega
  · rw [hdirs]; intro hj' hl
    by_cases hje : de.inode = j
    · subst hje
      have := herase de.inode
      rw [if_pos rfl, hone] at this
      rcases hl with hl | hl
      · exact absurd hl her
      · omega
    have hl' := (hlinked j hje).1 hl
    by_cases hjd : j = dir
    · subst hjd
      rw [hnlink_dir, hs.dir_nlink j hj hj' hl']
      omega
    · rw [hnlink j (Ne.symm hje) hjd, hsub j hjd]
      exact hs.dir_nlink j hj hj' hl'
  · rw [hdirs]; intro hj' hc
    have hc' : (fs.inodes j).children ≠ [] := fun h => hc (List.eq_nil_of_sublist_nil (h ▸ hsubl j))
    have hje : de.inode ≠ j := fun h => by rw [← h] at hc'; exact hc' hempty
    rw [hlinked j hje]
    exact hs.attached j hj hj' hc'

theorem tmpfsRmdir_nsOk (hs : NsOk fs root) (hd : dir ∈ fs.live) {inode : Option Nat}
    (hdentry : ∀ de, tmpfsFindDirentLocked (fs.inodes dir).children name = some de → inode = some de.inode) :
    NsOk (tmpfsRmdir fs dir name inode).1 root := by
  rcases tmpfsRmdir_cases fs dir name inode with ⟨h, -⟩ | ⟨i, de, rfl, hdirE, hempty, hf, heq⟩
  · rw [h]; exact hs
  · obtain rfl : i = de.inode := Option.some.inj (hdentry de hf)
    rw [heq]; exact hs.of_rmdir hd hf hdirE hempty

end Remove

/-! ## Sequences of calls -/

/-- a rename -/
def TmpfsOp.renames : TmpfsOp → Bool
  | .rename .. => true
  | _ => false

/-- what the VFS hands a call: live directories that hang in the tree, and dentries whose inode is that of the
entry of their name -/
def LegalOp (fs : Fs) (root : Nat) : TmpfsOp → Prop
  | .create dir .. | .mkdir dir .. | .mknod dir .. | .symlink dir .. => dir ∈ fs.live ∧ fs.Linked root dir
  | .link old dir .. => (∀ i, old = some i → i ∈ fs.live) ∧ dir ∈ fs.live ∧ fs.isDir dir = true ∧ fs.Linked root dir
  | .unlink dir name inode | .rmdir dir name inode => dir ∈ fs.live ∧
      ∀ de, tmpfsFindDirentLocked (fs.inodes dir).children name = some de → inode = some de.inode
  | .rename oldDir _ newDir .. => oldDir ∈ fs.live ∧ fs.isDir oldDir = true ∧ fs.Linked root oldDir ∧
      newDir ∈ fs.live ∧ fs.isDir newDir = true ∧ fs.Linked root newDir

/-- a sequence whose every call is legal in the state it meets -/
def LegalRun : Fs → Nat → List TmpfsOp → Prop
  | _, _, [] => True
  | fs, root, op :: ops => LegalOp fs root op ∧ LegalRun (step fs op).1 root ops

section Steps

variable {fs : Fs} {root : Nat}

theorem step_nsOk (hs : NsOk fs root) {op : TmpfsOp} (hl : LegalOp fs root op) (hr : op.renames = false) :
    NsOk (step fs op).1 root := by
  cases op with
  | create dir name mode a => exact tmpfsCreateCommon_nsOk hs hl.1 hl.2 none a
  | mkdir dir name mode a => exact tmpfsCreateCommon_nsOk hs hl.1 hl.2 none a
  | mknod dir name mode a => exact tmpfsCreateCommon_nsOk hs hl.1 hl.2 none a
  | symlink dir name target a => exact tmpfsCreateCommon_nsOk hs hl.1 hl.2 (some target) a
  | link old dir name ok => exact tmpfsLink_nsOk hs hl.1 hl.2.1 hl.2.2.1 hl.2.2.2 ok
  | unlink dir name inode => exact tmpfsUnlink_nsOk hs hl.1 hl.2
  | rmdir dir name inode => exact tmpfsRmdir_nsOk hs hl.1 hl.2
  | rename => simp [TmpfsOp.renames] at hr

theorem run_nsOk {ops : List TmpfsOp} (hs : NsOk fs root) (hl : LegalRun fs root ops)
    (hr : ∀ op ∈ ops, op.renames = false) : NsOk (run fs ops) root := by
  induction ops generalizing fs with
  | nil => exact hs
  | cons op ops ih =>
    exact ih (step_nsOk hs hl.1 (hr op List.mem_cons_self)) hl.2 fun o ho => hr o (List.mem_cons_of_mem _ ho)

end Steps

instance (fs : Fs) (root i : Nat) : Decidable (fs.Linked root i) := inferInstanceAs (Decidable (_ ∨ _))

/-! ## Mounting -/

/-- a freshly mounted tmpfs keeps the invariant: its root is alone, an empty directory with two links -/
theorem tmpfsRoot_nsOk (sb : Nat) : NsOk (tmpfsRoot sb).1 (tmpfsRoot sb).2 := by
  have hch : ∀ i, ((tmpfsRoot sb).1.inodes i).children = [] := fun i => by
    simp only [tmpfsRoot, tmpfsNewInode, Function.update_apply]
    split <;> rfl
  have hrefs : ∀ i, (tmpfsRoot sb).1.refs i = 0 := fun i => by simp [Fs.refs, hch]
  have hlive : (tmpfsRoot sb).1.live = {1} := by simp [tmpfsRoot]
  have hroot : (tmpfsRoot sb).2 = 1 := rfl
  have hdir : (tmpfsRoot sb).1.isDir 1 = true := by
    show sIsDir (S_IFDIR ||| 0o1777) = true
    decide
  rw [hroot]
  refine ⟨fun i hi => ?_, by simp [hlive], hdir, hrefs 1, fun d _ => by simp [hch], fun d _ de hde => by simp [hch] at hde,
    fun i _ _ => hch i, fun i hi hf => ?_, fun i _ _ => by simp [hrefs], fun i hi _ _ => ?_,
    fun i _ _ hc => absurd (hch i) hc⟩
  · rw [hlive, Finset.mem_singleton] at hi; subst hi; simp [tmpfsRoot]
  · rw [hlive, Finset.mem_singleton] at hi; subst hi; rw [hdir] at hf; exact Bool.noConfusion hf
  · rw [hlive, Finset.mem_singleton] at hi; subst hi
    rw [Fs.subdirs, hch]
    rfl

/-! ## Renaming a directory to another parent -/

/-- a mounted tmpfs holding directories `/a`, `/b` and `/a/c` -/
def threeDirs : Fs :=
  run (tmpfsRoot 0).1 [.mkdir 1 "a" 0o755 ⟨true, true, 0⟩, .mkdir 1 "b" 0o755 ⟨true, true, 0⟩,
    .mkdir 2 "c" 0o755 ⟨true, true, 0⟩]

theorem threeDirs_nsOk : NsOk threeDirs 1 :=
  run_nsOk (tmpfsRoot_nsOk 0) ⟨⟨by decide, .inl rfl⟩, ⟨by decide, .inl rfl⟩, ⟨by decide, .inr (by decide)⟩, trivial⟩
    (by decide)

/-- `rename("/a/c", "/b/c")` succeeds, and `tmpfs_rename` moves the entry without moving the subdirectory's link:
`/a` keeps three links with no subdirectory left, `/b` keeps two with one, and the invariant is broken. -/
theorem rename_keeps_parent_nlink :
    NsOk threeDirs 1 ∧ LegalOp threeDirs 1 (.rename 2 "c" 3 "c" 0 true) ∧
      (step threeDirs (.rename 2 "c" 3 "c" 0 true)).2 = 0 ∧
      ((step threeDirs (.rename 2 "c" 3 "c" 0 true)).1.inodes 2).nlink = 3 ∧
      (step threeDirs (.rename 2 "c" 3 "c" 0 true)).1.subdirs 2 = 0 ∧
      ((step threeDirs (.rename 2 "c" 3 "c" 0 true)).1.inodes 3).nlink = 2 ∧
      (step threeDirs (.rename 2 "c" 3 "c" 0 true)).1.subdirs 3 = 1 ∧
      ¬ NsOk (step threeDirs (.rename 2 "c" 3 "c" 0 true)).1 1 := by
  have hnlink : ((step threeDirs (.rename 2 "c" 3 "c" 0 true)).1.inodes 2).nlink = 3 := by decide
  have hsub : (step threeDirs (.rename 2 "c" 3 "c" 0 true)).1.subdirs 2 = 0 := by decide
  refine ⟨threeDirs_nsOk, ⟨by decide, by decide, .inr (by decide), by decide, by decide, .inr (by decide)⟩,
    by decide, hnlink, hsub, by decide, by decide, fun h => ?_⟩
  have h2 := h.dir_nlink 2 (by decide) (by decide) (.inr (by decide))
  omega

end Naos.Tmpfs
