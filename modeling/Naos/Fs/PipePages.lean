/-
Which pipe may write which page.

The ring write of `fs/pipe.c` copies user bytes into pages: into the back descriptor's page when it may merge, and
into a fresh page from the cache or the frame allocator. That keeps every pipe's queue intact only if those pages
hold no byte any live descriptor queues. `PagesOk` is the discipline that makes it so, over all pipes at once:
- a page a live descriptor owns (`page_ref` clear) is named by that descriptor and no other, in any pipe;
- a cached page is named by no live descriptor and sits in one cache, once.
The pages a descriptor only references (user pages, and pages shared by a move between pipes) may be shared freely,
since no one writes them.

The four ways the helpers change a pipe's pages are lemmas here: `PagesOk.shrink` (a page given up by its owner, or
a cached page taken), `PagesOk.pop` (the front descriptor leaves, its owned page to the cache), `PagesOk.push` (a
descriptor joins at the back) and `PagesOk.release` (a free page back to the cache). `content_memWrite_of_not_mem`
and `bufBytes_grow` say what a copy into a page does to the queues.
-/
import Mathlib
import Naos.Fs.PipeRing

namespace Naos.Pipe

/-! ## Pages of a ring -/

/-- the pages the descriptors name -/
def pagesOf (l : List PipeBuffer) : List Nat := l.map PipeBuffer.phys

/-- the pages the descriptors own -/
def ownedOf (l : List PipeBuffer) : List Nat := (l.filter fun b => !b.pageRef).map PipeBuffer.phys

@[simp] theorem pagesOf_nil : pagesOf [] = [] := rfl
@[simp] theorem ownedOf_nil : ownedOf [] = [] := rfl
@[simp] theorem pagesOf_cons (b : PipeBuffer) (l : List PipeBuffer) : pagesOf (b :: l) = b.phys :: pagesOf l := rfl
@[simp] theorem pagesOf_append (l l' : List PipeBuffer) : pagesOf (l ++ l') = pagesOf l ++ pagesOf l' :=
  List.map_append

theorem ownedOf_cons (b : PipeBuffer) (l : List PipeBuffer) :
    ownedOf (b :: l) = if b.pageRef then ownedOf l else b.phys :: ownedOf l := by
  cases h : b.pageRef <;> simp [ownedOf, h]

@[simp] theorem ownedOf_append (l l' : List PipeBuffer) : ownedOf (l ++ l') = ownedOf l ++ ownedOf l' := by
  simp [ownedOf]

theorem ownedOf_sublist (l : List PipeBuffer) : (ownedOf l).Sublist (pagesOf l) :=
  (List.filter_sublist).map _

theorem mem_pagesOf_of_mem_ownedOf {P : Nat} {l : List PipeBuffer} (h : P ∈ ownedOf l) : P ∈ pagesOf l :=
  (ownedOf_sublist l).subset h

/-! ## The discipline -/

/-- owned pages are exclusive, cached pages are free and in one cache -/
structure PagesOk (s : Sys) : Prop where
  owned_excl : ∀ i j P, P ∈ ownedOf (bufs (s.pipes i)) →
    (pagesOf (bufs (s.pipes j))).count P = if j = i then 1 else 0
  cache_free : ∀ i j P, P ∈ (s.pipes i).cachedPages → P ∉ pagesOf (bufs (s.pipes j))
  cache_nodup : ∀ i, (s.pipes i).cachedPages.Nodup
  cache_excl : ∀ i j P, P ∈ (s.pipes i).cachedPages → P ∈ (s.pipes j).cachedPages → i = j

/-- a page no pipe names or caches: the frame allocator hands out only such pages -/
def FreePage (s : Sys) (P : Nat) : Prop := ∀ j, P ∉ pagesOf (bufs (s.pipes j)) ∧ P ∉ (s.pipes j).cachedPages

/-- frames the allocator may hand out, each once -/
def FramesOk (s : Sys) (frames : List Nat) : Prop := frames.Nodup ∧ ∀ f ∈ frames, FreePage s f

/-- a page a user may splice in: no pipe owns or caches it -/
def UserPageOk (s : Sys) (P : Nat) : Prop := ∀ j, P ∉ ownedOf (bufs (s.pipes j)) ∧ P ∉ (s.pipes j).cachedPages

section Frame

variable {s : Sys} {i : Nat} {q : PipeInfo}

@[simp] theorem setPipe_mem : (s.setPipe i q).mem = s.mem := rfl
@[simp] theorem setPipe_pipes_self : (s.setPipe i q).pipes i = q := Function.update_self ..
theorem setPipe_pipes_ne {j : Nat} (h : j ≠ i) : (s.setPipe i q).pipes j = s.pipes j := Function.update_of_ne h ..
@[simp] theorem setPipe_setPipe (q' : PipeInfo) : (s.setPipe i q).setPipe i q' = s.setPipe i q' := by
  simp [Sys.setPipe]
@[simp] theorem setPipe_self : s.setPipe i (s.pipes i) = s := by simp [Sys.setPipe]

theorem setPipe_comm {j : Nat} (q' : PipeInfo) (h : i ≠ j) :
    (s.setPipe i q).setPipe j q' = (s.setPipe j q').setPipe i q := by
  simp [Sys.setPipe, Function.update_comm h]

/-- the exclusive owner of a page names it once and no other pipe names it -/
theorem PagesOk.owned_count (hs : PagesOk s) {P : Nat} (hP : P ∈ ownedOf (bufs (s.pipes i))) :
    (pagesOf (bufs (s.pipes i))).count P = 1 := by
  simpa using hs.owned_excl i i P hP

theorem PagesOk.owned_not_mem (hs : PagesOk s) {j P : Nat} (hP : P ∈ ownedOf (bufs (s.pipes i))) (hj : j ≠ i) :
    P ∉ pagesOf (bufs (s.pipes j)) := by
  rw [← List.count_eq_zero]
  simpa [hj] using hs.owned_excl i j P hP

/-- the discipline after one pipe is replaced, from what the new pipe's pages are -/
theorem PagesOk.setPipe (hs : PagesOk s)
    (howned : ∀ P ∈ ownedOf (bufs q), (pagesOf (bufs q)).count P = 1 ∧ ∀ j ≠ i, P ∉ pagesOf (bufs (s.pipes j)))
    (hothers : ∀ j ≠ i, ∀ P ∈ ownedOf (bufs (s.pipes j)), P ∉ pagesOf (bufs q))
    (hcache : ∀ P ∈ q.cachedPages, P ∉ pagesOf (bufs q) ∧
      ∀ j ≠ i, P ∉ pagesOf (bufs (s.pipes j)) ∧ P ∉ (s.pipes j).cachedPages)
    (hcached : ∀ j ≠ i, ∀ P ∈ (s.pipes j).cachedPages, P ∉ pagesOf (bufs q))
    (hnodup : q.cachedPages.Nodup) : PagesOk (s.setPipe i q) := by
  constructor
  · intro i' j' P hP
    by_cases hi : i' = i
    · subst hi
      rw [setPipe_pipes_self] at hP
      by_cases hj : j' = i'
      · subst hj; simpa using (howned P hP).1
      · rw [setPipe_pipes_ne hj, if_neg hj, List.count_eq_zero]
        exact (howned P hP).2 j' hj
    · rw [setPipe_pipes_ne hi] at hP
      by_cases hj : j' = i
      · subst hj
        rw [setPipe_pipes_self, if_neg (Ne.symm hi), List.count_eq_zero]
        exact hothers i' hi P hP
      · rw [setPipe_pipes_ne hj]
        exact hs.owned_excl i' j' P hP
  · intro i' j' P hP
    by_cases hi : i' = i
    · subst hi
      rw [setPipe_pipes_self] at hP
      by_cases hj : j' = i'
      · subst hj; rw [setPipe_pipes_self]; exact (hcache P hP).1
      · rw [setPipe_pipes_ne hj]; exact ((hcache P hP).2 j' hj).1
    · rw [setPipe_pipes_ne hi] at hP
      by_cases hj : j' = i
      · subst hj; rw [setPipe_pipes_self]; exact hcached i' hi P hP
      · rw [setPipe_pipes_ne hj]; exact hs.cache_free i' j' P hP
  · intro i'
    by_cases hi : i' = i
    · subst hi; rw [setPipe_pipes_self]; exact hnodup
    · rw [setPipe_pipes_ne hi]; exact hs.cache_nodup i'
  · intro i' j' P hP hP'
    by_cases hi : i' = i <;> by_cases hj : j' = i
    · rw [hi, hj]
    · subst hi
      rw [setPipe_pipes_self] at hP
      rw [setPipe_pipes_ne hj] at hP'
      exact absurd hP' ((hcache P hP).2 j' hj).2
    · subst hj
      rw [setPipe_pipes_self] at hP'
      rw [setPipe_pipes_ne hi] at hP
      exact absurd hP ((hcache P hP').2 i' hi).2
    · rw [setPipe_pipes_ne hi] at hP
      rw [setPipe_pipes_ne hj] at hP'
      exact hs.cache_excl i' j' P hP hP'

end Frame

/-! ## The four changes -/

section Changes

variable {s : Sys} {i : Nat} {q : PipeInfo}

/-- the same pages, fewer of them owned, fewer cached -/
theorem PagesOk.shrink (hs : PagesOk s) (hpages : pagesOf (bufs q) = pagesOf (bufs (s.pipes i)))
    (howned : (ownedOf (bufs q)).Sublist (ownedOf (bufs (s.pipes i))))
    (hcache : q.cachedPages.Sublist (s.pipes i).cachedPages) : PagesOk (s.setPipe i q) := by
  apply hs.setPipe
  · intro P hP
    have hP' := howned.subset hP
    exact ⟨by rw [hpages]; exact hs.owned_count hP', fun j hj => hs.owned_not_mem hP' hj⟩
  · intro j hj P hP
    rw [hpages]
    exact hs.owned_not_mem hP (Ne.symm hj)
  · intro P hP
    have hP' := hcache.subset hP
    refine ⟨by rw [hpages]; exact hs.cache_free i i P hP', fun j hj => ⟨hs.cache_free i j P hP', fun hPj => ?_⟩⟩
    exact hj (hs.cache_excl i j P hP' hPj).symm
  · intro j _ P hP
    rw [hpages]
    exact hs.cache_free j i P hP
  · exact (hs.cache_nodup i).sublist hcache

/-- the front descriptor leaves; when it owned its page, that page may go on the cache -/
theorem PagesOk.pop (hs : PagesOk s) {b : PipeBuffer} {rest : List PipeBuffer}
    (hp : bufs (s.pipes i) = b :: rest) (hq : bufs q = rest)
    (hcache : q.cachedPages = (s.pipes i).cachedPages ∨
      (b.pageRef = false ∧ q.cachedPages = b.phys :: (s.pipes i).cachedPages)) : PagesOk (s.setPipe i q) := by
  have hsub : (pagesOf rest).Sublist (pagesOf (bufs (s.pipes i))) := by
    rw [hp, pagesOf_cons]; exact List.sublist_cons_self _ _
  have hown : (ownedOf rest).Sublist (ownedOf (bufs (s.pipes i))) := by
    rw [hp, ownedOf_cons]; split
    · exact List.Sublist.refl _
    · exact List.sublist_cons_self _ _
  have hfront : b.pageRef = false → b.phys ∉ pagesOf rest ∧ ∀ j ≠ i, b.phys ∉ pagesOf (bufs (s.pipes j)) := by
    intro hb
    have hmem : b.phys ∈ ownedOf (bufs (s.pipes i)) := by rw [hp, ownedOf_cons, hb]; simp
    have hcount := hs.owned_count hmem
    rw [hp, pagesOf_cons, List.count_cons] at hcount
    refine ⟨?_, fun j hj => hs.owned_not_mem hmem hj⟩
    rw [← List.count_eq_zero]
    simp at hcount
    exact hcount
  apply hs.setPipe
  · intro P hP
    rw [hq] at hP ⊢
    have hP' := hown.subset hP
    refine ⟨?_, fun j hj => hs.owned_not_mem hP' hj⟩
    have hle := hsub.count_le P
    have hpos : 0 < (pagesOf rest).count P := List.count_pos_iff.2 (mem_pagesOf_of_mem_ownedOf hP)
    rw [hs.owned_count hP'] at hle
    omega
  · intro j hj P hP
    rw [hq]
    exact fun h => hs.owned_not_mem hP (Ne.symm hj) (hsub.subset h)
  · intro P hP
    rw [hq]
    rcases hcache with hc | ⟨hb, hc⟩
    · rw [hc] at hP
      exact ⟨fun h => hs.cache_free i i P hP (hsub.subset h),
        fun j hj => ⟨hs.cache_free i j P hP, fun hPj => hj (hs.cache_excl i j P hP hPj).symm⟩⟩
    · rw [hc] at hP
      rcases List.mem_cons.1 hP with rfl | hP
      · refine ⟨(hfront hb).1, fun j hj => ⟨(hfront hb).2 j hj, fun hPj => ?_⟩⟩
        exact hs.cache_free j i _ hPj (by rw [hp]; exact List.mem_cons_self)
      · exact ⟨fun h => hs.cache_free i i P hP (hsub.subset h),
          fun j hj => ⟨hs.cache_free i j P hP, fun hPj => hj (hs.cache_excl i j P hP hPj).symm⟩⟩
  · intro j _ P hP
    rw [hq]
    exact fun h => hs.cache_free j i P hP (hsub.subset h)
  · rcases hcache with hc | ⟨-, hc⟩
    · rw [hc]; exact hs.cache_nodup i
    · rw [hc, List.nodup_cons]
      exact ⟨fun h => hs.cache_free i i _ h (by rw [hp]; exact List.mem_cons_self), hs.cache_nodup i⟩

/-- a descriptor joins at the back: its page is one no pipe owns or caches, and, if it owns the page, one no pipe
names at all -/
theorem PagesOk.push (hs : PagesOk s) {b : PipeBuffer} (hq : bufs q = bufs (s.pipes i) ++ [b])
    (hcache : q.cachedPages = (s.pipes i).cachedPages) (huser : UserPageOk s b.phys)
    (hfree : b.pageRef = false → ∀ j, b.phys ∉ pagesOf (bufs (s.pipes j))) : PagesOk (s.setPipe i q) := by
  have hne : ∀ j, ∀ P ∈ ownedOf (bufs (s.pipes j)), P ≠ b.phys := fun j P hP h => (huser j).1 (h ▸ hP)
  apply hs.setPipe
  · intro P hP
    rw [hq, ownedOf_append] at hP
    rw [hq, pagesOf_append, List.count_append]
    rcases List.mem_append.1 hP with hP | hP
    · refine ⟨?_, fun j hj => hs.owned_not_mem hP hj⟩
      rw [hs.owned_count hP, pagesOf_cons, pagesOf_nil, List.count_singleton]
      simp [Ne.symm (hne i P hP)]
    · have hb : b.pageRef = false ∧ P = b.phys := by
        cases h : b.pageRef <;> simp_all [ownedOf]
      obtain ⟨hb, rfl⟩ := hb
      refine ⟨?_, fun j _ => hfree hb j⟩
      rw [List.count_eq_zero.2 (hfree hb i)]
      simp
  · intro j hj P hP
    rw [hq, pagesOf_append]
    simp only [List.mem_append, pagesOf_cons, pagesOf_nil, List.mem_singleton, not_or]
    exact ⟨hs.owned_not_mem hP (Ne.symm hj), hne j P hP⟩
  · intro P hP
    rw [hcache] at hP
    rw [hq, pagesOf_append]
    simp only [List.mem_append, pagesOf_cons, pagesOf_nil, List.mem_singleton, not_or]
    exact ⟨⟨hs.cache_free i i P hP, fun h => (huser i).2 (h ▸ hP)⟩,
      fun j hj => ⟨hs.cache_free i j P hP, fun hPj => hj (hs.cache_excl i j P hP hPj).symm⟩⟩
  · intro j _ P hP
    rw [hq, pagesOf_append]
    simp only [List.mem_append, pagesOf_cons, pagesOf_nil, List.mem_singleton, not_or]
    exact ⟨hs.cache_free j i P hP, fun h => (huser j).2 (h ▸ hP)⟩
  · rw [hcache]; exact hs.cache_nodup i

/-- a free page stays free when a pipe is replaced by one that neither names nor caches it -/
theorem FreePage.setPipe {P : Nat} (hP : FreePage s P) (hpages : P ∉ pagesOf (bufs q))
    (hcache : P ∉ q.cachedPages) : FreePage (s.setPipe i q) P := by
  intro j
  by_cases hj : j = i
  · subst hj
    rw [setPipe_pipes_self]
    exact ⟨hpages, hcache⟩
  · rw [setPipe_pipes_ne hj]
    exact hP j

/-- the allocator's frames stay free when a pipe keeps its pages and its cache -/
theorem FramesOk.setPipe_same {frames : List Nat} (hf : FramesOk s frames)
    (hpages : pagesOf (bufs q) = pagesOf (bufs (s.pipes i))) (hcache : q.cachedPages = (s.pipes i).cachedPages) :
    FramesOk (s.setPipe i q) frames :=
  ⟨hf.1, fun f hfm => (hf.2 f hfm).setPipe (by rw [hpages]; exact (hf.2 f hfm i).1)
    (by rw [hcache]; exact (hf.2 f hfm i).2)⟩

/-- a free page goes on the cache -/
theorem PagesOk.release (hs : PagesOk s) {P : Nat} (hq : bufs q = bufs (s.pipes i))
    (hcache : q.cachedPages = P :: (s.pipes i).cachedPages) (hP : FreePage s P) : PagesOk (s.setPipe i q) := by
  apply hs.setPipe
  · intro P' hP'
    rw [hq] at hP' ⊢
    exact ⟨hs.owned_count hP', fun j hj => hs.owned_not_mem hP' hj⟩
  · intro j hj P' hP'
    rw [hq]
    exact hs.owned_not_mem hP' (Ne.symm hj)
  · intro P' hP'
    rw [hq]
    rw [hcache] at hP'
    rcases List.mem_cons.1 hP' with rfl | hP'
    · exact ⟨(hP i).1, fun j _ => hP j⟩
    · exact ⟨hs.cache_free i i P' hP',
        fun j hj => ⟨hs.cache_free i j P' hP', fun hPj => hj (hs.cache_excl i j P' hP' hPj).symm⟩⟩
  · intro j _ P' hP'
    rw [hq]
    exact hs.cache_free j i P' hP'
  · rw [hcache, List.nodup_cons]
    exact ⟨(hP i).2, hs.cache_nodup i⟩

end Changes

/-! ## Copies into pages -/

section Copies

variable {mem : Mem} {P o : Nat} {d : List UInt8}

/-- a copy into a page none of the descriptors names leaves their bytes -/
theorem flatMap_bufBytes_memWrite {l : List PipeBuffer} (h : P ∉ pagesOf l) :
    l.flatMap (bufBytes (memWrite mem P o d)) = l.flatMap (bufBytes mem) := by
  apply List.flatMap_congr
  intro b hb
  have hne : b.phys ≠ P := fun e => h (e ▸ List.mem_map_of_mem hb)
  exact memRead_memWrite_of_disjoint (Or.inl hne)

/-- a copy into a page no descriptor names leaves the queue -/
theorem content_memWrite_of_not_mem {p : PipeInfo} (h : P ∉ pagesOf (bufs p)) :
    content (memWrite mem P o d) p = content mem p :=
  flatMap_bufBytes_memWrite h

/-- the bytes of the back descriptor after `d` is copied right after its window -/
theorem bufBytes_grow {b : PipeBuffer} (hend : b.offset + b.len + d.length ≤ PAGE_SIZE) :
    bufBytes (memWrite mem b.phys (b.offset + b.len) d) (b.grow d.length) = bufBytes mem b ++ d := by
  have hlen : u16 (b.len + u16 d.length) = b.len + d.length := by
    rw [u16_of_le (show d.length ≤ PAGE_SIZE by omega), u16_of_le (by omega)]
  simp only [bufBytes, PipeBuffer.grow, hlen]
  exact memRead_memWrite_append d rfl

theorem BufOk.grow {b : PipeBuffer} {n : Nat} (hb : BufOk b) (hmerge : b.canMerge = true)
    (hend : b.offset + b.len + n ≤ PAGE_SIZE) : BufOk (b.grow n) := by
  have hlen : u16 (b.len + u16 n) = b.len + n := by
    rw [u16_of_le (show n ≤ PAGE_SIZE by omega), u16_of_le (by omega)]
  refine ⟨?_, ?_, hb.phys_ne, fun _ => ?_⟩ <;> simp only [PipeBuffer.grow, hlen]
  · have := hb.len_pos; omega
  · omega
  · exact hb.merge_owned hmerge

end Copies

end Naos.Pipe
