/-
epoll_ctl_file of fs/syscall/epoll.c, and the relation "epoll instance e watches a file whose epoll handle is e'"
that its checks keep acyclic.

An epoll instance is reached through its file objects: epoll_create makes one, and epollfs_open gives every other open
of the same inode the same epoll_t (epoll_file_handle). epoll_ctl_file refuses to watch the file it is called on
(-EINVAL) and, for a target that is an epoll file, searches the target's instance and the instances it watches, to a
depth of 32, for a watch of that same file (epoll_contains_file, -ELOOP). Both checks compare file objects. The files
are fixed (`Files`); the watch lists are what epoll_ctl changes.

Results:
- `epollContainsFile_of_reaches`: the depth-bounded search finds every chain of watches that ends at the needle;
- `epollCtlFile_acyclic`, `epollRun_acyclic`: when every instance has one file object, every run of epoll_ctl calls
  keeps the relation acyclic;
- `epoll_self_watch_through_second_file`: an instance opened twice watches itself through its second file object.
-/
import Mathlib
import Naos.Lib.Acyclic

namespace Naos.Epoll

open AcyclicRel Relation

/-! ## The model -/

def EPERM : Int := 1
def ENOENT : Int := 2
def EBADF : Int := 9
def EFAULT : Int := 14
def EEXIST : Int := 17
def EINVAL : Int := 22
def ELOOP : Int := 40

def EPOLL_CTL_ADD : Int := 1
def EPOLL_CTL_DEL : Int := 2
def EPOLL_CTL_MOD : Int := 3

abbrev FileId := Nat
abbrev EpollId := Nat

/-- the open files as epoll_ctl sees them -/
structure Files where
  /-- task_get_file of the calling task -/
  fdTable : Int → Option FileId
  /-- epoll_file_handle: the epoll instance of a file of epollfs, the same for every open of its inode -/
  handle : FileId → Option EpollId
  /-- whether the file has a poll operation -/
  hasPoll : FileId → Bool
  /-- vfs_file_fd_ref_read -/
  fdRef : FileId → Int

/-- the watch list of every epoll instance, in order, as the files its watches point to -/
abbrev Watches := EpollId → List FileId

/-- epoll_contains_file: whether `epoll`, or an instance it watches through an epoll file, to a depth of 32, has a
watch of `needle`; past that depth it answers yes -/
def epollContainsFile (files : Files) (watches : Watches) (epoll : EpollId) (needle : FileId) (depth : Nat) : Bool :=
  if _h : depth > 32 then true
  else
    (watches epoll).any fun f =>
      f == needle ||
        match files.handle f with
        | some nested => epollContainsFile files watches nested needle (depth + 1)
        | none => false
termination_by 33 - depth

/-- epoll_ctl_file on the epoll file `epollFile`, with an event given or not: its return value and the watch lists
after it -/
def epollCtlFile (files : Files) (watches : Watches) (epollFile : FileId) (op : Int) (fd : Int) (hasEvent : Bool) :
    Int × Watches :=
  if op ≠ EPOLL_CTL_ADD ∧ op ≠ EPOLL_CTL_DEL ∧ op ≠ EPOLL_CTL_MOD then (-EINVAL, watches)
  else if (op = EPOLL_CTL_ADD ∨ op = EPOLL_CTL_MOD) ∧ !hasEvent then (-EFAULT, watches)
  else
    match files.handle epollFile with
    | none => (-EBADF, watches)
    | some epoll =>
      match files.fdTable fd with
      | none => (-EBADF, watches)
      | some target =>
        -- the file objects are compared, not the instances behind them
        if target = epollFile then (-EINVAL, watches)
        else if !files.hasPoll target then (-EPERM, watches)
        else if files.fdRef target ≤ 0 then (-EBADF, watches)
        -- epoll_file_is_epoll(target) and the search from its instance
        else if op = EPOLL_CTL_ADD ∧
            (files.handle target).any (fun targetEpoll => epollContainsFile files watches targetEpoll epollFile 0) then
          (-ELOOP, watches)
        -- the existing watch is the one of the same file object
        else if op = EPOLL_CTL_ADD then
          if target ∈ watches epoll then (-EEXIST, watches)
          else (0, Function.update watches epoll (watches epoll ++ [target]))
        else if op = EPOLL_CTL_DEL then
          if target ∉ watches epoll then (-ENOENT, watches)
          else (0, Function.update watches epoll ((watches epoll).erase target))
        -- EPOLL_CTL_MOD changes the events of a watch, not the lists
        else if target ∉ watches epoll then (-ENOENT, watches) else (0, watches)

/-- one epoll_ctl call: the epoll file, the op, the fd and whether an event is given -/
structure CtlCall where
  epollFile : FileId
  op : Int
  fd : Int
  hasEvent : Bool

/-- a run of epoll_ctl calls -/
def epollRun (files : Files) : Watches → List CtlCall → Watches
  | watches, [] => watches
  | watches, c :: cs => epollRun files (epollCtlFile files watches c.epollFile c.op c.fd c.hasEvent).2 cs

/-! ## The watches relation and the search -/

/-- `e` has a watch of a file whose epoll handle is `e'` -/
def WatchRel (files : Files) (watches : Watches) (e e' : EpollId) : Prop :=
  ∃ f ∈ watches e, files.handle f = some e'

/-- a chain of watches through epoll files from `e` that ends at a watch of `needle` -/
inductive Reaches (files : Files) (watches : Watches) (needle : FileId) : EpollId → Prop
  | direct {e : EpollId} : needle ∈ watches e → Reaches files watches needle e
  | step {e e' : EpollId} {f : FileId} :
      f ∈ watches e → files.handle f = some e' → Reaches files watches needle e' → Reaches files watches needle e

/-- every instance has one file object: epoll_create made it and nothing opened the inode again -/
def OneFilePerEpoll (files : Files) : Prop :=
  ∀ f g e, files.handle f = some e → files.handle g = some e → f = g

section Search

variable {files : Files} {watches : Watches} {needle : FileId}

/-- the search finds every chain to a watch of the needle, from any depth: past depth 32 it answers yes -/
theorem epollContainsFile_of_reaches {e : EpollId} (h : Reaches files watches needle e) (depth : Nat) :
    epollContainsFile files watches e needle depth = true := by
  induction h generalizing depth with
  | direct hmem =>
    rw [epollContainsFile]
    split
    · rfl
    · exact List.any_eq_true.2 ⟨needle, hmem, by simp⟩
  | step hmem hhandle _ ih =>
    rw [epollContainsFile]
    split
    · rfl
    · exact List.any_eq_true.2 ⟨_, hmem, by simp [hhandle, ih]⟩

/-- with one file object per instance, a chain of watches back to the instance of `epollFile` ends at a watch of
`epollFile` itself -/
theorem reaches_of_transGen (hone : OneFilePerEpoll files) {epollFile : FileId} {epoll e : EpollId}
    (hepoll : files.handle epollFile = some epoll) (h : TransGen (WatchRel files watches) e epoll) :
    Reaches files watches epollFile e := by
  induction h using TransGen.head_induction_on with
  | single hlast =>
    obtain ⟨f, hmem, hf⟩ := hlast
    exact .direct (hone f epollFile epoll hf hepoll ▸ hmem)
  | head hfirst _ ih =>
    obtain ⟨f, hmem, hf⟩ := hfirst
    exact .step hmem hf ih

end Search

/-! ## What a call can do to the watch lists -/

section Cases

variable {files : Files} {watches : Watches} {epollFile : FileId} {op fd : Int} {hasEvent : Bool}

/-- a call leaves the lists as they are, adds a watch that passed both checks, or removes a watch -/
theorem epollCtlFile_cases :
    (epollCtlFile files watches epollFile op fd hasEvent).2 = watches ∨
      (∃ epoll target, files.handle epollFile = some epoll ∧ files.fdTable fd = some target ∧ target ≠ epollFile ∧
        (files.handle target).any (fun te => epollContainsFile files watches te epollFile 0) = false ∧
        (epollCtlFile files watches epollFile op fd hasEvent).2 =
          Function.update watches epoll (watches epoll ++ [target])) ∨
      (∃ epoll target, (epollCtlFile files watches epollFile op fd hasEvent).2 =
          Function.update watches epoll ((watches epoll).erase target)) := by
  generalize hr : epollCtlFile files watches epollFile op fd hasEvent = r
  unfold epollCtlFile at hr
  split at hr
  · exact Or.inl (by rw [← hr])
  split at hr
  · exact Or.inl (by rw [← hr])
  split at hr
  · exact Or.inl (by rw [← hr])
  next epoll hepoll =>
  split at hr
  · exact Or.inl (by rw [← hr])
  next target htarget =>
  split at hr
  · exact Or.inl (by rw [← hr])
  next hself =>
  split at hr
  · exact Or.inl (by rw [← hr])
  split at hr
  · exact Or.inl (by rw [← hr])
  split at hr
  · exact Or.inl (by rw [← hr])
  next hloop =>
  split at hr
  · next hadd =>
    split at hr
    · exact Or.inl (by rw [← hr])
    · refine Or.inr (Or.inl ⟨epoll, target, hepoll, htarget, hself, ?_, by rw [← hr]⟩)
      simpa [hadd] using hloop
  split at hr
  · split at hr
    · exact Or.inl (by rw [← hr])
    · exact Or.inr (Or.inr ⟨epoll, target, by rw [← hr]⟩)
  split at hr
  · exact Or.inl (by rw [← hr])
  · exact Or.inl (by rw [← hr])

end Cases

/-! ## Acyclicity over every run -/

section Acyclic

variable {files : Files} {watches : Watches} {epoll : EpollId}

theorem watchRel_update_append {target : FileId} {x y : EpollId}
    (h : WatchRel files (Function.update watches epoll (watches epoll ++ [target])) x y) :
    WatchRel files watches x y ∨ (x = epoll ∧ files.handle target = some y) := by
  obtain ⟨f, hmem, hf⟩ := h
  by_cases hx : x = epoll
  · subst hx
    rw [Function.update_self, List.mem_append, List.mem_singleton] at hmem
    rcases hmem with hmem | rfl
    · exact Or.inl ⟨f, hmem, hf⟩
    · exact Or.inr ⟨rfl, hf⟩
  · rw [Function.update_of_ne hx] at hmem
    exact Or.inl ⟨f, hmem, hf⟩

theorem watchRel_update_erase {target : FileId} {x y : EpollId}
    (h : WatchRel files (Function.update watches epoll ((watches epoll).erase target)) x y) :
    WatchRel files watches x y := by
  obtain ⟨f, hmem, hf⟩ := h
  by_cases hx : x = epoll
  · subst hx
    rw [Function.update_self] at hmem
    exact ⟨f, List.mem_of_mem_erase hmem, hf⟩
  · rw [Function.update_of_ne hx] at hmem
    exact ⟨f, hmem, hf⟩

/-- the new edge of an ADD that passed both checks closes no cycle: a path back from the target's instance would
end at a watch of the epoll file, which the search finds, and a self-edge would make the target the epoll file -/
theorem not_reflTransGen_of_checks (hone : OneFilePerEpoll files) {epollFile target : FileId} {te : EpollId}
    (hepoll : files.handle epollFile = some epoll) (hself : target ≠ epollFile) (hte : files.handle target = some te)
    (hloop : epollContainsFile files watches te epollFile 0 = false) :
    ¬ReflTransGen (WatchRel files watches) te epoll := by
  intro h
  rcases reflTransGen_iff_eq_or_transGen.1 h with rfl | hpath
  · exact hself (hone target epollFile epoll hte hepoll)
  · have := epollContainsFile_of_reaches (reaches_of_transGen hone hepoll hpath) 0
    rw [hloop] at this
    exact Bool.false_ne_true this

/-- one epoll_ctl call keeps the watches relation acyclic when every instance has one file object -/
theorem epollCtlFile_acyclic (hone : OneFilePerEpoll files) (h : Acyclic (WatchRel files watches))
    (epollFile : FileId) (op fd : Int) (hasEvent : Bool) :
    Acyclic (WatchRel files (epollCtlFile files watches epollFile op fd hasEvent).2) := by
  rcases @epollCtlFile_cases files watches epollFile op fd hasEvent with hsame | ⟨epoll, target, hepoll, -, hself, hloop, hnew⟩ | ⟨epoll, target, hnew⟩
  · rw [hsame]
    exact h
  · rw [hnew]
    cases hte : files.handle target with
    | none =>
      refine h.mono fun x y hxy => ?_
      rcases watchRel_update_append hxy with hold | ⟨-, hy⟩
      · exact hold
      · rw [hte] at hy
        exact absurd hy (by simp)
    | some te =>
      rw [hte] at hloop
      refine (h.addEdge (not_reflTransGen_of_checks hone hepoll hself hte hloop)).mono fun x y hxy => ?_
      rcases watchRel_update_append hxy with hold | ⟨rfl, hy⟩
      · exact Or.inl hold
      · rw [hte, Option.some_inj] at hy
        exact Or.inr ⟨rfl, hy.symm⟩
  · rw [hnew]
    exact h.mono fun _ _ => watchRel_update_erase

/-- every run of epoll_ctl calls keeps the watches relation acyclic when every instance has one file object -/
theorem epollRun_acyclic (hone : OneFilePerEpoll files) (calls : List CtlCall)
    (h : Acyclic (WatchRel files watches)) : Acyclic (WatchRel files (epollRun files watches calls)) := by
  induction calls generalizing watches with
  | nil => exact h
  | cons c cs ih => exact ih (epollCtlFile_acyclic hone h c.epollFile c.op c.fd c.hasEvent)

/-- instances 0 and 1, each opened once: files 0 and 1, at fds 3 and 4 -/
def oneOpenEach : Files where
  fdTable fd := if fd = 3 then some 0 else if fd = 4 then some 1 else none
  handle f := if f ≤ 1 then some f else none
  hasPoll _ := true
  fdRef _ := 1

theorem epollRun_acyclic_oneOpenEach :
    Acyclic (WatchRel oneOpenEach
      (epollRun oneOpenEach (fun _ => []) [⟨0, EPOLL_CTL_ADD, 4, true⟩, ⟨1, EPOLL_CTL_ADD, 3, true⟩])) :=
  epollRun_acyclic (fun f g e hf hg => by simp [oneOpenEach] at hf hg; grind) _
    (acyclic_of_forall_not fun _ _ ⟨_, hf, _⟩ => by simp at hf)

end Acyclic

/-! ## An instance opened twice -/

/-- one epoll instance with two file objects, as epollfs_open makes them: files 0 and 1 are both instance 0, at
fds 3 and 4 -/
def twoOpens : Files where
  fdTable fd := if fd = 3 then some 0 else if fd = 4 then some 1 else none
  handle f := if f ≤ 1 then some 0 else none
  hasPoll _ := true
  fdRef _ := 1

def noWatches : Watches := fun _ => []

/-- the search of an instance with no watches, from a depth it has not passed, finds nothing -/
theorem epollContainsFile_of_nil {files : Files} {watches : Watches} {e : EpollId} (h : watches e = [])
    (needle : FileId) {depth : Nat} (hdepth : depth ≤ 32) : epollContainsFile files watches e needle depth = false := by
  rw [epollContainsFile, dif_neg (by omega), h, List.any_nil]

theorem twoOpens_add_first : (epollCtlFile twoOpens noWatches 0 EPOLL_CTL_ADD 3 true).1 = -EINVAL := by
  simp [epollCtlFile, twoOpens, EPOLL_CTL_ADD, EPOLL_CTL_DEL, EPOLL_CTL_MOD]

theorem twoOpens_add_second :
    epollCtlFile twoOpens noWatches 0 EPOLL_CTL_ADD 4 true = (0, Function.update noWatches 0 [1]) := by
  have hsearch : epollContainsFile twoOpens noWatches 0 0 0 = false := epollContainsFile_of_nil rfl 0 (by omega)
  have hfd : twoOpens.fdTable 4 = some 1 := rfl
  have hepoll : twoOpens.handle 0 = some 0 := rfl
  have htarget : twoOpens.handle 1 = some 0 := rfl
  have hpoll : twoOpens.hasPoll 1 = true := rfl
  have href : twoOpens.fdRef 1 = 1 := rfl
  simp [epollCtlFile, hfd, hepoll, htarget, hpoll, href, hsearch, noWatches, EPOLL_CTL_ADD, EPOLL_CTL_DEL,
    EPOLL_CTL_MOD]

/-- from no watches at all, an ADD of the instance to itself through its first file is refused with -EINVAL, and
through its second file it succeeds and makes the instance watch itself -/
theorem epoll_self_watch_through_second_file :
    Acyclic (WatchRel twoOpens noWatches) ∧
      (epollCtlFile twoOpens noWatches 0 EPOLL_CTL_ADD 3 true).1 = -EINVAL ∧
      (epollCtlFile twoOpens noWatches 0 EPOLL_CTL_ADD 4 true).1 = 0 ∧
      ¬Acyclic (WatchRel twoOpens (epollCtlFile twoOpens noWatches 0 EPOLL_CTL_ADD 4 true).2) := by
  refine ⟨acyclic_of_forall_not fun x y ⟨f, hf, _⟩ => by simp [noWatches] at hf, twoOpens_add_first, ?_, ?_⟩
  · rw [twoOpens_add_second]
  intro hacyclic
  rw [twoOpens_add_second] at hacyclic
  exact hacyclic 0 (TransGen.single ⟨1, by simp, rfl⟩)

end Naos.Epoll
