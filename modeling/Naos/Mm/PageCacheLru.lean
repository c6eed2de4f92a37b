/-
The reclaim walk of the global page-cache LRU list in mm/cache.c: pcache_lru_reclaim_oldest, which looks for one page
to reclaim, and page_cache_reclaim_half, which calls it until half the list is reclaimed or scanned.

The LRU list is the list of its pages from the head (`lru`), a page is its number, and a node pointer is the page it
is embedded in, or the list head (`none`). pcache_lru_move_tail_locked deletes a page and appends it at the tail.
The walk has read the page's next pointer before, so the cursor stays where the page was. The pages from the cursor
to the tail are therefore a queue: each pass takes the first, and a page it leaves on the list goes to the back.
`frameRefs` is what page_refcount_read gives for each page's frame, and `trylock` whether spin_trylock on a mapping
lock succeeds; both are the state of the other CPUs, fixed for one call.

A page `stays` when the walk counts it and leaves it on the list: it has a mapping, is not being reclaimed, and its
mapping lock is held or it is mmapped, held, loading, under writeback or dirty. Its referenced bit does not matter:
the walk clears it and moves the page to the tail all the same.

Results:
- `lruNext_of_mem`, `moveTail_of_mem`: the cursor step and the move to the tail on a list without repeats;
- `reclaimLoop_step`: one pass on a queue no page of which can be reclaimed, two of which stay, leaves such a
  queue (`StuckQueue`);
- `reclaimLoop_runs_out`: on such a queue the walk runs out of every fuel, so pcache_lru_reclaim_oldest and
  page_cache_reclaim_half do not return (`pcacheLruReclaimOldest_runs_out`, `pageCacheReclaimHalf_runs_out`);
- `reclaim_half_runs_out_two_dirty`: two dirty pages are enough.
-/
import Mathlib

namespace Naos.PageCache

/-! ## The model -/

/-- the fields of page_cache_page_t the walk reads; `mapping` is the address space, `none` for NULL -/
structure CachePage where
  mapping : Option Nat
  refCount : Int
  mmapCount : Int
  loading : Bool
  dirty : Bool
  writeback : Bool
  onLru : Bool
  reclaiming : Bool
  referenced : Bool
  deriving DecidableEq, Repr

/-- the page cache as the reclaim walk sees it: its pages, the LRU list from its head, and pcache_reclaim_active.
pcache_lru_pages is the length of the list. -/
structure LruState where
  pages : Nat → CachePage
  lru : List Nat
  reclaimActive : Bool

namespace LruState

def setPage (s : LruState) (p : Nat) (page : CachePage) : LruState :=
  { s with pages := Function.update s.pages p page }

end LruState

/-- the `next` pointer of the node of page `x`: the page after it, or the list head after the last page -/
def lruNext : List Nat → Nat → Option Nat
  | [], _ => none
  | y :: rest, x => if y = x then rest.head? else lruNext rest x

/-- pcache_lru_move_tail_locked: llist_delete, then llist_append -/
def pcacheLruMoveTailLocked (s : LruState) (p : Nat) : LruState :=
  if !(s.pages p).onLru || (s.pages p).reclaiming then s
  else { s with lru := s.lru.erase p ++ [p] }

/-- pcache_lru_remove_locked -/
def pcacheLruRemoveLocked (s : LruState) (p : Nat) : LruState :=
  if !(s.pages p).onLru then s
  else { s.setPage p { s.pages p with onLru := false } with lru := s.lru.erase p }

/-- what the walk does to the page it reclaims under the locks: pcache_lru_remove_locked, `reclaiming = true`, and
pcache_remove_locked_lru, which takes the page out of its mapping -/
def reclaimLocked (s : LruState) (p : Nat) : LruState :=
  let s := pcacheLruRemoveLocked s p
  s.setPage p { s.pages p with reclaiming := true, mapping := none }

/-- the check that lets the walk reclaim a page it holds the mapping lock of -/
def reclaimable (frameRefs : Nat → Int) (p : Nat) (page : CachePage) : Bool :=
  page.mmapCount = 0 && page.refCount = 0 && frameRefs p = 1 && !page.loading && !page.writeback && !page.dirty

/-- the loop of pcache_lru_reclaim_oldest from the node `pos`, with `scanned` pages counted; it returns the page it
reclaimed, if any, the count, and the state -/
def reclaimLoop (frameRefs : Nat → Int) (trylock : Nat → Bool) :
    (fuel : Nat) → (s : LruState) → (pos : Option Nat) → (scanned : Nat) → Option (Option Nat × Nat × LruState)
  | 0, _, _, _ => none
  | _ + 1, s, none, scanned => some (none, scanned, s)
  | fuel + 1, s, some c, scanned =>
    let candidate := s.pages c
    let pos := lruNext s.lru c
    match candidate.mapping with
    | none => reclaimLoop frameRefs trylock fuel s pos scanned
    | some mapping =>
      if candidate.reclaiming then reclaimLoop frameRefs trylock fuel s pos scanned
      else
        let scanned := scanned + 1
        if candidate.referenced then
          let s := s.setPage c { candidate with referenced := false }
          reclaimLoop frameRefs trylock fuel (pcacheLruMoveTailLocked s c) pos scanned
        else if !trylock mapping then
          reclaimLoop frameRefs trylock fuel (pcacheLruMoveTailLocked s c) pos scanned
        else if reclaimable frameRefs c candidate then some (some c, scanned, reclaimLocked s c)
        else reclaimLoop frameRefs trylock fuel (pcacheLruMoveTailLocked s c) pos scanned

/-- pcache_lru_reclaim_oldest: the walk from the first page, then pcache_free of the page it reclaimed; it returns
whether it reclaimed one, and the count it stores in `*scanned_out` -/
def pcacheLruReclaimOldest (frameRefs : Nat → Int) (trylock : Nat → Bool) (fuel : Nat) (s : LruState) :
    Option (Bool × Nat × LruState) := do
  let (reclaimedPage, scanned, s) ← reclaimLoop frameRefs trylock fuel s s.lru.head? 0
  match reclaimedPage with
  | none => some (false, scanned, s)
  | some p => some (true, scanned, s.setPage p { s.pages p with reclaiming := false })

/-- the loop of page_cache_reclaim_half; `passes` bounds its passes -/
def reclaimHalfLoop (frameRefs : Nat → Int) (trylock : Nat → Bool) (fuel lruPages target : Nat) :
    (passes : Nat) → (s : LruState) → (scanned reclaimed : Nat) → Option (Nat × LruState)
  | 0, _, _, _ => none
  | passes + 1, s, scanned, reclaimed =>
    if scanned < lruPages ∧ reclaimed < target then do
      let (didReclaim, passScanned, s) ← pcacheLruReclaimOldest frameRefs trylock fuel s
      if passScanned = 0 then some (reclaimed, s)
      else
        reclaimHalfLoop frameRefs trylock fuel lruPages target passes s (scanned + passScanned)
          (if didReclaim then reclaimed + 1 else reclaimed)
    else some (reclaimed, s)

/-- page_cache_reclaim_half -/
def pageCacheReclaimHalf (frameRefs : Nat → Int) (trylock : Nat → Bool) (fuel : Nat) (s : LruState) :
    Option (Nat × LruState) :=
  if s.reclaimActive then some (0, s)
  else do
    let lruPages := s.lru.length
    let target := if lruPages ≠ 0 then max 1 ((lruPages + 1) / 2) else 0
    let (reclaimed, s) ← reclaimHalfLoop frameRefs trylock fuel lruPages target (lruPages + 1)
      { s with reclaimActive := true } 0 0
    some (reclaimed, { s with reclaimActive := false })

/-! ## The walk as a queue -/

/-- the walk can reclaim the page when it reaches it with its referenced bit clear -/
def canReclaim (frameRefs : Nat → Int) (trylock : Nat → Bool) (p : Nat) (page : CachePage) : Bool :=
  match page.mapping with
  | none => false
  | some mapping => !page.reclaiming && trylock mapping && reclaimable frameRefs p page

/-- the walk counts the page and leaves it on the list, whatever its referenced bit -/
def stays (frameRefs : Nat → Int) (trylock : Nat → Bool) (p : Nat) (page : CachePage) : Bool :=
  match page.mapping with
  | none => false
  | some _ => !page.reclaiming && !canReclaim frameRefs trylock p page

/-- a walk that cannot reclaim: the list is `pre ++ q` with the cursor at the head of `q`, no page of `q` can be
reclaimed, and two of them stay -/
structure StuckQueue (frameRefs : Nat → Int) (trylock : Nat → Bool) (s : LruState) (pos : Option Nat)
    (q : List Nat) : Prop where
  split : ∃ pre, s.lru = pre ++ q
  nodup : s.lru.Nodup
  pos : pos = q.head?
  onLru : ∀ p ∈ q, (s.pages p).onLru = true
  noReclaim : ∀ p ∈ q, canReclaim frameRefs trylock p (s.pages p) = false
  two : 2 ≤ q.countP fun p => stays frameRefs trylock p (s.pages p)

section Queue

variable {frameRefs : Nat → Int} {trylock : Nat → Bool} {pre post : List Nat} {c : Nat}

theorem lruNext_of_mem (hnd : (pre ++ c :: post).Nodup) : lruNext (pre ++ c :: post) c = post.head? := by
  induction pre with
  | nil => simp [lruNext]
  | cons y pre ih =>
    have hy : y ≠ c := fun h => (List.nodup_cons.1 hnd).1 (by simp [h])
    rw [List.cons_append, lruNext, if_neg hy, ih (List.nodup_cons.1 hnd).2]

theorem erase_of_mem (hnd : (pre ++ c :: post).Nodup) : (pre ++ c :: post).erase c = pre ++ post := by
  have hc : c ∉ pre := fun h => (List.nodup_append.1 hnd).2.2 c h c List.mem_cons_self rfl
  rw [List.erase_append_right _ hc, List.erase_cons_head]

theorem moveTail_of_mem {s : LruState} (hlru : s.lru = pre ++ c :: post) (hnd : s.lru.Nodup)
    (hon : (s.pages c).onLru = true) (hrec : (s.pages c).reclaiming = false) :
    pcacheLruMoveTailLocked s c = { s with lru := pre ++ post ++ [c] } := by
  have he : s.lru.erase c = pre ++ post := by
    rw [hlru]
    exact erase_of_mem (hlru ▸ hnd)
  simp [pcacheLruMoveTailLocked, hon, hrec, he]

/-- a page that stays is not reclaimed, whatever the walk finds at its mapping lock -/
theorem stays_of_mapping {p : Nat} {page : CachePage} {m : Nat} (hm : page.mapping = some m)
    (hrec : page.reclaiming = false) (hcan : canReclaim frameRefs trylock p page = false) :
    stays frameRefs trylock p page = true := by
  simp [stays, hm, hrec, hcan]

/-- the referenced bit changes neither check -/
theorem canReclaim_referenced (p : Nat) (page : CachePage) (b : Bool) :
    canReclaim frameRefs trylock p { page with referenced := b } = canReclaim frameRefs trylock p page := rfl

theorem stays_referenced (p : Nat) (page : CachePage) (b : Bool) :
    stays frameRefs trylock p { page with referenced := b } = stays frameRefs trylock p page := rfl

theorem StuckQueue.ne_nil {s : LruState} {pos : Option Nat} {q : List Nat} (h : StuckQueue frameRefs trylock s pos q) :
    q ≠ [] := by
  rintro rfl
  exact absurd h.two (by simp)

/-- a page the walk skips leaves the rest of the queue -/
theorem StuckQueue.skip {s : LruState} (h : StuckQueue frameRefs trylock s (some c) (c :: post))
    (hstay : stays frameRefs trylock c (s.pages c) = false) :
    StuckQueue frameRefs trylock s (lruNext s.lru c) post := by
  obtain ⟨pre, hlru⟩ := h.split
  refine ⟨⟨pre ++ [c], by rw [hlru]; simp⟩, h.nodup, by rw [hlru, lruNext_of_mem (hlru ▸ h.nodup)],
    fun p hp => h.onLru p (List.mem_cons_of_mem c hp), fun p hp => h.noReclaim p (List.mem_cons_of_mem c hp), ?_⟩
  have := h.two
  rw [List.countP_cons, hstay] at this
  simpa using this

/-- a page that stays goes to the back of the queue -/
theorem StuckQueue.moveTail {s : LruState} (h : StuckQueue frameRefs trylock s (some c) (c :: post))
    (hstay : stays frameRefs trylock c (s.pages c) = true) :
    StuckQueue frameRefs trylock (pcacheLruMoveTailLocked s c) (lruNext s.lru c) (post ++ [c]) := by
  obtain ⟨pre, hlru⟩ := h.split
  have hrec : (s.pages c).reclaiming = false := by
    cases hm : (s.pages c).mapping <;> simp_all [stays]
  have hon := h.onLru c List.mem_cons_self
  have hpost : post ≠ [] := by
    rintro rfl
    exact absurd h.two (by simp [hstay])
  have hperm : (pre ++ post ++ [c]).Perm s.lru := by
    rw [hlru, List.append_assoc]
    exact List.perm_append_left_iff pre |>.2 (List.perm_append_singleton c post)
  rw [moveTail_of_mem hlru h.nodup hon hrec]
  refine ⟨⟨pre, List.append_assoc _ _ _⟩, hperm.nodup_iff.2 h.nodup, ?_, fun p hp => ?_, fun p hp => ?_, ?_⟩
  · rw [hlru, lruNext_of_mem (hlru ▸ h.nodup)]
    cases post with
    | nil => exact absurd rfl hpost
    | cons d post => rfl
  · rcases List.mem_append.1 hp with hp | hp
    · exact h.onLru p (List.mem_cons_of_mem c hp)
    · rw [List.mem_singleton.1 hp]
      exact hon
  · rcases List.mem_append.1 hp with hp | hp
    · exact h.noReclaim p (List.mem_cons_of_mem c hp)
    · rw [List.mem_singleton.1 hp]
      exact h.noReclaim c List.mem_cons_self
  · have := h.two
    rw [List.countP_cons, hstay] at this
    simpa [List.countP_append, hstay] using this

/-- clearing the referenced bit of the page at the cursor keeps the queue -/
theorem StuckQueue.clearReferenced {s : LruState} {pos : Option Nat} {q : List Nat}
    (h : StuckQueue frameRefs trylock s pos q) (c : Nat) :
    StuckQueue frameRefs trylock (s.setPage c { s.pages c with referenced := false }) pos q := by
  have hpage : ∀ p, (s.setPage c { s.pages c with referenced := false }).pages p =
      if p = c then { s.pages p with referenced := false } else s.pages p := fun p => by
    by_cases hp : p = c
    · subst hp
      simp [LruState.setPage]
    · simp [LruState.setPage, hp]
  refine ⟨h.split, h.nodup, h.pos, fun p hp => ?_, fun p hp => ?_, ?_⟩
  · rw [hpage]
    split_ifs
    · exact h.onLru p hp
    · exact h.onLru p hp
  · rw [hpage]
    split_ifs
    · rw [canReclaim_referenced]
      exact h.noReclaim p hp
    · exact h.noReclaim p hp
  · have heq : (q.countP fun p => stays frameRefs trylock p
        ((s.setPage c { s.pages c with referenced := false }).pages p)) =
        q.countP fun p => stays frameRefs trylock p (s.pages p) := by
      congr 1
      funext p
      rw [hpage]
      split_ifs
      · rw [stays_referenced]
      · rfl
    rw [heq]
    exact h.two

/-- one pass of the walk on a queue that cannot reclaim: it goes on, on such a queue -/
theorem reclaimLoop_step {s : LruState} {pos : Option Nat} {q : List Nat} (h : StuckQueue frameRefs trylock s pos q)
    (fuel scanned : Nat) :
    ∃ s' pos' q' scanned', reclaimLoop frameRefs trylock (fuel + 1) s pos scanned =
      reclaimLoop frameRefs trylock fuel s' pos' scanned' ∧ StuckQueue frameRefs trylock s' pos' q' := by
  obtain ⟨c, post, rfl⟩ := List.exists_cons_of_ne_nil h.ne_nil
  have hpos : pos = some c := h.pos
  subst hpos
  have hcan := h.noReclaim c List.mem_cons_self
  cases hm : (s.pages c).mapping with
  | none =>
    refine ⟨s, _, post, scanned, by simp [reclaimLoop, hm], h.skip (by simp [stays, hm])⟩
  | some m =>
    by_cases hrec : (s.pages c).reclaiming = true
    · refine ⟨s, _, post, scanned, by simp [reclaimLoop, hm, hrec], h.skip (by simp [stays, hm, hrec])⟩
    rw [Bool.not_eq_true] at hrec
    have hstay := stays_of_mapping hm hrec hcan
    by_cases href : (s.pages c).referenced = true
    · have h1 := h.clearReferenced c
      have hstay1 : stays frameRefs trylock c
          ((s.setPage c { s.pages c with referenced := false }).pages c) = true := by
        simp only [LruState.setPage, Function.update_self, stays_referenced, hstay]
      refine ⟨_, _, post ++ [c], scanned + 1, ?_, h1.moveTail hstay1⟩
      rw [reclaimLoop]
      split
      · rename_i hnone
        rw [hm] at hnone
        cases hnone
      · rw [if_neg (by simp [hrec]), if_pos href]
        rfl
    rw [Bool.not_eq_true] at href
    have hnext : reclaimLoop frameRefs trylock (fuel + 1) s (some c) scanned =
        reclaimLoop frameRefs trylock fuel (pcacheLruMoveTailLocked s c) (lruNext s.lru c) (scanned + 1) := by
      cases hl : trylock m with
      | false => simp [reclaimLoop, hm, hrec, href, hl]
      | true =>
        have hr : reclaimable frameRefs c (s.pages c) = false := by simpa [canReclaim, hm, hrec, hl] using hcan
        simp [reclaimLoop, hm, hrec, href, hl, hr]
    exact ⟨_, _, post ++ [c], scanned + 1, hnext, h.moveTail hstay⟩

/-- on a queue that cannot reclaim, the walk runs out of every fuel -/
theorem reclaimLoop_runs_out (fuel : Nat) :
    ∀ (s : LruState) pos q scanned, StuckQueue frameRefs trylock s pos q →
      reclaimLoop frameRefs trylock fuel s pos scanned = none := by
  induction fuel with
  | zero => exact fun _ _ _ _ _ => rfl
  | succ n ih =>
    intro s pos q scanned h
    obtain ⟨s', pos', q', scanned', hrun, h'⟩ := reclaimLoop_step h n scanned
    rw [hrun]
    exact ih s' pos' q' scanned' h'

/-- a list no page of which can be reclaimed, two of which stay -/
def Stuck (frameRefs : Nat → Int) (trylock : Nat → Bool) (s : LruState) : Prop :=
  StuckQueue frameRefs trylock s s.lru.head? s.lru

theorem pcacheLruReclaimOldest_runs_out {s : LruState} (h : Stuck frameRefs trylock s) (fuel : Nat) :
    pcacheLruReclaimOldest frameRefs trylock fuel s = none := by
  simp [pcacheLruReclaimOldest, reclaimLoop_runs_out fuel s _ _ 0 h]

theorem pageCacheReclaimHalf_runs_out {s : LruState} (h : Stuck frameRefs trylock s)
    (hactive : s.reclaimActive = false) (fuel : Nat) : pageCacheReclaimHalf frameRefs trylock fuel s = none := by
  have hlen : 2 ≤ s.lru.length := h.two.trans List.countP_le_length
  have h' : Stuck frameRefs trylock { s with reclaimActive := true } :=
    ⟨h.split, h.nodup, h.pos, h.onLru, h.noReclaim, h.two⟩
  have hpass := pcacheLruReclaimOldest_runs_out h' fuel
  have htarget : 0 < if s.lru.length ≠ 0 then max 1 ((s.lru.length + 1) / 2) else 0 := by
    rw [if_pos (by omega)]
    omega
  simp only [pageCacheReclaimHalf, hactive, Bool.false_eq_true, if_false, reclaimHalfLoop,
    if_pos (And.intro (show 0 < s.lru.length by omega) htarget), hpass, Option.bind_eq_bind, Option.bind_none]

end Queue

/-- a dirty page of mapping 0, on the LRU list and not referenced -/
def dirtyPage : CachePage := ⟨some 0, 0, 0, false, true, false, true, false, false⟩

/-- two dirty pages on the LRU list -/
def twoDirty : LruState where
  pages _ := dirtyPage
  lru := [1, 2]
  reclaimActive := false

/-- one dirty page: the walk moves it to the tail and reaches the list head -/
example : (pcacheLruReclaimOldest (fun _ => 1) (fun _ => true) 2 { twoDirty with lru := [1] }).map
    (fun r => (r.1, r.2.1, r.2.2.lru)) = some (false, 1, [1]) := by
  decide

theorem twoDirty_stuck : Stuck (fun _ => 1) (fun _ => true) twoDirty :=
  ⟨⟨[], rfl⟩, by decide, rfl, by decide, by decide, by decide⟩

theorem reclaim_half_runs_out_two_dirty (fuel : Nat) :
    pcacheLruReclaimOldest (fun _ => 1) (fun _ => true) fuel twoDirty = none ∧
      pageCacheReclaimHalf (fun _ => 1) (fun _ => true) fuel twoDirty = none :=
  ⟨pcacheLruReclaimOldest_runs_out twoDirty_stuck fuel, pageCacheReclaimHalf_runs_out twoDirty_stuck rfl fuel⟩

end Naos.PageCache
