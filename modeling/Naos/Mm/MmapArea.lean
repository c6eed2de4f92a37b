/-
find_unmapped_area of mm/mm_syscall.c: where mmap places a mapping whose address the caller leaves to the kernel,
or one whose hint it may take.

find_unmapped_area_in_window rounds its window to pages and walks the VMAs in address order with rb_first and
rb_next. It keeps a cursor, the end of the last VMA it has passed rounded up to a page, and the highest placement
found so far: the end of each gap, clipped at the window's end, less the length. find_unmapped_area rounds the length
up to pages, takes the hint's page when the range from it is in bounds and free, and else searches the window above
the hint, the window below it and the whole range, in that order.

The model keeps the arithmetic of the source in 64 bits: PADDING_UP and PADDING_DOWN are those of klibc.h, the
value `(uint64_t)-ENOMEM` is `enomemRet`, and `(int64_t)x >= 0` is `x < 2^63`. task_mm_mmap_top is its value
`mmapTop`; a NULL `mm` is not modelled. The walk runs for at most `fuel` passes, and rb_first and rb_next for at most
`fuel` steps each; the model returns `none` when one of them has not ended by then.

`Fits mgr T lo hi len a`: the range `[a, a + len)` starts a page, lies in `[lo, hi)` and meets no VMA of the tree.
`PageAligned mgr T`: every VMA of the tree starts and ends on a page boundary.

Results:
- `findUnmappedAreaLoop_spec`: the walk keeps the highest placement that ends below the cursor (`WalkInv`), and
  gives the highest in the window by each of its exits;
- `findUnmappedAreaInWindow_spec`: for a page-aligned length, the highest placement in the rounded window, or
  -ENOMEM when there is none;
- `findUnmappedArea_spec`: a placement of the rounded length in `[USER_MMAP_START, mmap_top)`, the hint's page
  when it is one, and -ENOMEM only when there is none;
- `find_unmapped_area_places`: both, for a manager whose VMAs are page-aligned.
-/
import Mathlib
import Naos.Mm.Buddy
import Naos.Mm.VmaRange
import Naos.Libs.RbTreeIter
import Naos.Lib.Slots

namespace Naos.Vmas

open RedBlack RBTree Naos.RbTree VmaManager Naos.Slots
open Naos.Buddy (PAGE_SIZE PADDING_DOWN PADDING_UP)

/-! ## The model -/

/-- USER_MMAP_START of task/task.h -/
def USER_MMAP_START : Nat := 0x10000

def ENOMEM : Nat := 12

/-- `(uint64_t)-ENOMEM` -/
def enomemRet : Nat := 2 ^ 64 - ENOMEM

/-- the test after the walk: the gap from the cursor to the window's end, if it holds the length -/
def lastGap (windowEnd len cursor best : Nat) : Nat :=
  if cursor < windowEnd ∧ len ≤ windowEnd - cursor then windowEnd - len else best

/-- the test of the gap between the cursor and a VMA that starts at `vmStart`, clipped at the window's end -/
def gapBest (windowEnd len cursor vmStart best : Nat) : Nat :=
  if cursor < vmStart then
    let gapEnd := min vmStart windowEnd
    if cursor < gapEnd ∧ len ≤ gapEnd - cursor then gapEnd - len else best
  else best

/-- the walk of find_unmapped_area_in_window from `node` on, for at most `loopFuel` passes; `rb_next` is taken at
the start of a pass, as in the source -/
def findUnmappedAreaLoop (fuel : Nat) (mgr : VmaManager) (windowEnd len : Nat) :
    (loopFuel : Nat) → (node : Option Nat) → (cursor best : Nat) → Option Nat
  | 0, _, _, _ => none
  | _ + 1, none, cursor, best => some (lastGap windowEnd len cursor best)
  | loopFuel + 1, some n, cursor, best =>
    (rbNext fuel mgr.vmaTree n).bind fun next =>
      let vma := mgr.vmas n
      if vma.vmEnd ≤ cursor then findUnmappedAreaLoop fuel mgr windowEnd len loopFuel next cursor best
      else if windowEnd ≤ vma.vmStart then some (lastGap windowEnd len cursor best)
      else
        let best := gapBest windowEnd len cursor vma.vmStart best
        let cursor := PADDING_UP vma.vmEnd PAGE_SIZE
        if cursor < vma.vmEnd ∨ windowEnd ≤ cursor then some best
        else findUnmappedAreaLoop fuel mgr windowEnd len loopFuel next cursor best

/-- find_unmapped_area_in_window -/
def findUnmappedAreaInWindow (fuel : Nat) (mgr : VmaManager) (windowStart windowEnd len : Nat) : Option Nat :=
  let windowStart := PADDING_UP windowStart PAGE_SIZE
  let windowEnd := PADDING_DOWN windowEnd PAGE_SIZE
  if windowEnd ≤ windowStart then some enomemRet
  else if len = 0 ∨ windowEnd - windowStart < len then some enomemRet
  else
    (rbFirst fuel mgr.vmaTree).bind fun node =>
      findUnmappedAreaLoop fuel mgr windowEnd len fuel node windowStart enomemRet

/-- find_unmapped_area, with `mmapTop` the value task_mm_mmap_top gives -/
def findUnmappedArea (fuel : Nat) (mgr : VmaManager) (mmapTop hint len : Nat) : Option Nat :=
  if len = 0 then some enomemRet
  else
    let len := PADDING_UP len PAGE_SIZE
    -- the last stage: the whole range
    let whole := findUnmappedAreaInWindow fuel mgr USER_MMAP_START mmapTop len
    if len = 0 then some enomemRet
    else if mmapTop ≤ USER_MMAP_START ∨ mmapTop - USER_MMAP_START < len then some enomemRet
    else if hint = 0 then whole
    else
      let hint := PADDING_DOWN hint PAGE_SIZE
      if ¬(USER_MMAP_START ≤ hint ∧ hint ≤ mmapTop - len) then whole
      else
        (vmaFindIntersection fuel mgr hint (hint + len)).bind fun hit =>
          if hit = none then some hint
          else
            -- the window below the hint, then the whole range
            let below := (findUnmappedAreaInWindow fuel mgr USER_MMAP_START hint len).bind fun downward =>
              if downward < 2 ^ 63 then some downward else whole
            if hint + len < mmapTop then
              (findUnmappedAreaInWindow fuel mgr (hint + len) mmapTop len).bind fun wrapped =>
                if wrapped < 2 ^ 63 then some wrapped else below
            else below

/-- a manager with no VMA -/
def noVmas : VmaManager where
  vmaTree := { nodes := fun _ => unlinkedNode, data := fun _ => (), root := none }
  vmas _ := vmaZero
  vmUsed := 0

theorem noVmas_ok : VmaOk noVmas .leaf where
  tree :=
    { linked := ⟨rfl, by simp [pathTop], by simp⟩
      rb := ⟨0, .leaf⟩
      sorted := by simp
      nonempty := by simp }
  wf := by simp [vmaList]
  used := rfl

/-! ## Placements -/

/-- every VMA of the tree starts and ends on a page boundary -/
def PageAligned (mgr : VmaManager) (T : RBTree Nat) : Prop :=
  ∀ x ∈ T.ids, (mgr.vmas x).vmStart % PAGE_SIZE = 0 ∧ (mgr.vmas x).vmEnd % PAGE_SIZE = 0

/-- `[a, a + len)` starts a page, lies in `[lo, hi)` and meets no VMA of the tree -/
def Fits (mgr : VmaManager) (T : RBTree Nat) (lo hi len a : Nat) : Prop :=
  a ∈ slots PAGE_SIZE lo hi len ∧ ∀ x ∈ T.ids, (mgr.vmas x).vmEnd ≤ a ∨ a + len ≤ (mgr.vmas x).vmStart

section Pages

variable {x : Nat}

theorem paddingDown_aligned (x : Nat) : PADDING_DOWN x PAGE_SIZE % PAGE_SIZE = 0 := Nat.mul_mod_left ..

theorem paddingUp_aligned (x : Nat) : PADDING_UP x PAGE_SIZE % PAGE_SIZE = 0 := paddingDown_aligned _

theorem paddingDown_le (x : Nat) : PADDING_DOWN x PAGE_SIZE ≤ x := Nat.div_mul_le_self ..

/-- rounding a page boundary up leaves it where it is -/
theorem paddingUp_of_aligned (hx : x % PAGE_SIZE = 0) (hlt : x < 2 ^ 64) : PADDING_UP x PAGE_SIZE = x := by
  unfold PADDING_UP PADDING_DOWN PAGE_SIZE at *
  rw [Nat.mod_eq_of_lt (by omega)]
  omega

/-- a page-aligned range ends by a bound when it ends by the bound rounded down -/
theorem le_paddingDown_iff {a len hi : Nat} (ha : a % PAGE_SIZE = 0) (hlen : len % PAGE_SIZE = 0) :
    a + len ≤ PADDING_DOWN hi PAGE_SIZE ↔ a + len ≤ hi := by
  unfold PADDING_DOWN PAGE_SIZE at *
  omega

end Pages

/-! ## The walk -/

section Walk

variable {mgr : VmaManager} {T : RBTree Nat} {fuel ws we len : Nat}

/-- what the walk keeps once it has passed the VMAs `A`: the cursor is a page boundary in the window, the VMAs
passed end by it, no placement crosses it, and `best` is the highest placement that ends by it -/
structure WalkInv (mgr : VmaManager) (T : RBTree Nat) (ws we len : Nat) (A : List Nat) (cursor best : Nat) :
    Prop where
  aligned : cursor % PAGE_SIZE = 0
  start_le : ws ≤ cursor
  lt_end : cursor < we
  passed : ∀ x ∈ A, (mgr.vmas x).vmEnd ≤ cursor
  no_straddle : ∀ a, Fits mgr T ws we len a → a + len ≤ cursor ∨ cursor ≤ a
  best : GreatestOr {a | Fits mgr T ws we len a ∧ a + len ≤ cursor} enomemRet best

/-- the VMAs after one in the tree begin where it ends or later -/
theorem TreeOk.after {A B : List Nat} {n : Nat} (hok : TreeOk mgr T) (hAB : T.ids = A ++ n :: B) :
    ∀ x ∈ B, (mgr.vmas n).vmEnd ≤ (mgr.vmas x).vmStart := by
  have hsorted := hok.sorted
  rw [hAB, List.pairwise_append, List.pairwise_cons] at hsorted
  exact hsorted.2.1.1

/-- the VMAs from one on in the tree begin where it begins or later -/
theorem TreeOk.start_le_of_after {A B : List Nat} {n : Nat} (hok : TreeOk mgr T) (hAB : T.ids = A ++ n :: B) :
    ∀ x ∈ n :: B, (mgr.vmas n).vmStart ≤ (mgr.vmas x).vmStart := by
  intro x hx
  rcases List.mem_cons.1 hx with rfl | hx
  · exact le_rfl
  · have := hok.after hAB x hx
    have := hok.nonempty n (by simp [hAB])
    omega

/-- a slot from the cursor on that ends by `g` meets no VMA, when the VMAs passed end by the cursor and the others
begin at `g` or later -/
theorem fits_of_slot {A B : List Nat} {cursor g a : Nat} (hAB : T.ids = A ++ B)
    (hA : ∀ x ∈ A, (mgr.vmas x).vmEnd ≤ cursor) (hB : ∀ x ∈ B, g ≤ (mgr.vmas x).vmStart) (hws : ws ≤ cursor)
    (ha : a ∈ slots PAGE_SIZE cursor (min g we) len) : Fits mgr T ws we len a := by
  obtain ⟨hal, hc, hend⟩ := ha
  refine ⟨⟨hal, by omega, by omega⟩, fun x hx => ?_⟩
  rw [hAB] at hx
  rcases List.mem_append.1 hx with hx | hx
  · exact Or.inl ((hA x hx).trans hc)
  · exact Or.inr (by have := hB x hx; omega)

/-- the placements that end by the end of the next VMA: those that end by the cursor, and the slots of the gap
between the cursor and the VMA -/
theorem fits_upto_next {A B : List Nat} {n cursor best : Nat} (hok : TreeOk mgr T) (hlen : 0 < len)
    (hAB : T.ids = A ++ n :: B) (hinv : WalkInv mgr T ws we len A cursor best) (hcur : cursor < (mgr.vmas n).vmEnd) :
    {a | Fits mgr T ws we len a ∧ a + len ≤ (mgr.vmas n).vmEnd} =
      {a | Fits mgr T ws we len a ∧ a + len ≤ cursor} ∪ slots PAGE_SIZE cursor (min (mgr.vmas n).vmStart we) len := by
  have hn : n ∈ T.ids := by rw [hAB]; simp
  have hnon := hok.nonempty n hn
  ext a
  constructor
  · rintro ⟨hfit, hend⟩
    rcases hinv.no_straddle a hfit with hle | hge
    · exact Or.inl ⟨hfit, hle⟩
    · right
      rcases hfit.2 n hn with h | h
      · omega
      · exact ⟨hfit.1.1, hge, by have := hfit.1.2.2; omega⟩
  · rintro (⟨hfit, hle⟩ | hslot)
    · exact ⟨hfit, by omega⟩
    · refine ⟨fits_of_slot hAB hinv.passed (hok.start_le_of_after hAB) hinv.start_le hslot, ?_⟩
      have := hslot.2.2
      omega

/-- when the VMAs not passed begin at the window's end or later, the placements are those that end by the cursor
and the slots from the cursor to the window's end -/
theorem fits_eq_of_rest {A B : List Nat} {cursor best : Nat} (hAB : T.ids = A ++ B)
    (hinv : WalkInv mgr T ws we len A cursor best) (hB : ∀ x ∈ B, we ≤ (mgr.vmas x).vmStart) :
    {a | Fits mgr T ws we len a} = {a | Fits mgr T ws we len a ∧ a + len ≤ cursor} ∪ slots PAGE_SIZE cursor we len := by
  ext a
  constructor
  · intro hfit
    rcases hinv.no_straddle a hfit with hle | hge
    · exact Or.inl ⟨hfit, hle⟩
    · exact Or.inr ⟨hfit.1.1, hge, hfit.1.2.2⟩
  · rintro (⟨hfit, -⟩ | hslot)
    · exact hfit
    · exact fits_of_slot hAB hinv.passed hB hinv.start_le (by rwa [min_self])

/-- a VMA that ends by the cursor is passed as it is -/
theorem WalkInv.skip {A : List Nat} {n cursor best : Nat} (hinv : WalkInv mgr T ws we len A cursor best)
    (hskip : (mgr.vmas n).vmEnd ≤ cursor) : WalkInv mgr T ws we len (A ++ [n]) cursor best where
  aligned := hinv.aligned
  start_le := hinv.start_le
  lt_end := hinv.lt_end
  passed x hx := by
    rcases List.mem_append.1 hx with hx | hx
    · exact hinv.passed x hx
    · rwa [List.mem_singleton.1 hx]
  no_straddle := hinv.no_straddle
  best := hinv.best

section Gaps

variable (hpos : 0 < len) (hlen : len % PAGE_SIZE = 0) (hwe : we % PAGE_SIZE = 0)
include hpos hlen hwe

/-- the best after the gap before a VMA that begins at `vmStart` -/
theorem gapBest_spec {S : Set Nat} {cursor vmStart best : Nat} (hbest : GreatestOr S enomemRet best)
    (hS : ∀ a ∈ S, a + len ≤ cursor) (hs : vmStart % PAGE_SIZE = 0) :
    GreatestOr (S ∪ slots PAGE_SIZE cursor (min vmStart we) len) enomemRet (gapBest we len cursor vmStart best) := by
  by_cases hc : cursor < vmStart
  · have hmin : min vmStart we % PAGE_SIZE = 0 := by
      rcases min_choice vmStart we with h | h <;> rw [h] <;> assumption
    simp only [gapBest, hc, if_true]
    exact hbest.union_slots hS hmin hlen hpos
  · simp only [gapBest, hc, if_false]
    exact hbest.union_empty (slots_eq_empty (by omega))

/-- the walk ends with the highest placement when the VMAs not passed begin at the window's end or later -/
theorem lastGap_spec {A B : List Nat} {cursor best : Nat} (hAB : T.ids = A ++ B)
    (hinv : WalkInv mgr T ws we len A cursor best) (hB : ∀ x ∈ B, we ≤ (mgr.vmas x).vmStart) :
    GreatestOr {a | Fits mgr T ws we len a} enomemRet (lastGap we len cursor best) := by
  rw [fits_eq_of_rest hAB hinv hB]
  exact hinv.best.union_slots (fun a ha => ha.2) hwe hlen hpos

/-- the best after the gap before the next VMA is the highest placement that ends by that VMA's end -/
theorem gapBest_upto_next {A B : List Nat} {n cursor best : Nat} (hok : TreeOk mgr T) (hal : PageAligned mgr T)
    (hAB : T.ids = A ++ n :: B) (hinv : WalkInv mgr T ws we len A cursor best) (hcur : cursor < (mgr.vmas n).vmEnd) :
    GreatestOr {a | Fits mgr T ws we len a ∧ a + len ≤ (mgr.vmas n).vmEnd} enomemRet
      (gapBest we len cursor (mgr.vmas n).vmStart best) := by
  rw [fits_upto_next hok hpos hAB hinv hcur]
  exact gapBest_spec hpos hlen hwe hinv.best (fun a ha => ha.2) (hal n (by simp [hAB])).1

/-- a VMA that ends past the cursor and before the window's end is passed with its end as the cursor -/
theorem WalkInv.pass {A B : List Nat} {n cursor best : Nat} (hok : TreeOk mgr T) (hal : PageAligned mgr T)
    (hAB : T.ids = A ++ n :: B) (hinv : WalkInv mgr T ws we len A cursor best) (hcur : cursor < (mgr.vmas n).vmEnd)
    (hend : (mgr.vmas n).vmEnd < we) :
    WalkInv mgr T ws we len (A ++ [n]) (mgr.vmas n).vmEnd (gapBest we len cursor (mgr.vmas n).vmStart best) where
  aligned := (hal n (by simp [hAB])).2
  start_le := hinv.start_le.trans hcur.le
  lt_end := hend
  passed x hx := by
    rcases List.mem_append.1 hx with hx | hx
    · exact (hinv.passed x hx).trans hcur.le
    · rw [List.mem_singleton.1 hx]
  no_straddle a hfit := by
    have hn := hok.nonempty n (by simp [hAB])
    rcases hfit.2 n (by simp [hAB]) with h | h
    · exact Or.inr h
    · exact Or.inl (by omega)
  best := gapBest_upto_next hpos hlen hwe hok hal hAB hinv hcur

/-- the walk from the VMAs `B` on, with the VMAs `A` passed, gives the highest placement in the window, or -ENOMEM
when there is none -/
theorem findUnmappedAreaLoop_spec (hok : VmaOk mgr T) (hal : PageAligned mgr T) (hfuel : T.ids.length < fuel) :
    ∀ (B A : List Nat) (cursor best loopFuel : Nat), T.ids = A ++ B → WalkInv mgr T ws we len A cursor best →
      B.length < loopFuel →
      ∃ r, findUnmappedAreaLoop fuel mgr we len loopFuel B.head? cursor best = some r ∧
        GreatestOr {a | Fits mgr T ws we len a} enomemRet r := by
  intro B
  induction B with
  | nil =>
    intro A cursor best loopFuel hAB hinv hlf
    obtain ⟨k, rfl⟩ : ∃ k, loopFuel = k + 1 := ⟨loopFuel - 1, by simp at hlf; omega⟩
    exact ⟨_, rfl, lastGap_spec hpos hlen hwe (B := []) (by simpa using hAB) hinv (by simp)⟩
  | cons n B ih =>
    intro A cursor best loopFuel hAB hinv hlf
    obtain ⟨k, rfl⟩ : ∃ k, loopFuel = k + 1 := ⟨loopFuel - 1, by simp at hlf; omega⟩
    have hn : n ∈ T.ids := by simp [hAB]
    have hAB' : T.ids = (A ++ [n]) ++ B := by simp [hAB]
    have hlf' : B.length < k := by simp at hlf; omega
    have hup : PADDING_UP (mgr.vmas n).vmEnd PAGE_SIZE = (mgr.vmas n).vmEnd :=
      paddingUp_of_aligned (hal n hn).2 (hok.wf _ (List.mem_map_of_mem hn)).end_lt
    simp only [List.head?_cons, findUnmappedAreaLoop, rbNext_eq hok.tree.linked hAB hfuel, Option.bind_some, hup,
      lt_self_iff_false, false_or]
    split_ifs with hskip hstop hret
    · exact ih (A ++ [n]) cursor best k hAB' (hinv.skip hskip) hlf'
    · refine ⟨_, rfl, lastGap_spec hpos hlen hwe hAB hinv fun x hx => ?_⟩
      exact hstop.trans (hok.tree.start_le_of_after hAB x hx)
    · have hall : {a | Fits mgr T ws we len a} = {a | Fits mgr T ws we len a ∧ a + len ≤ (mgr.vmas n).vmEnd} :=
        Set.ext fun a => ⟨fun h => ⟨h, h.1.2.2.trans hret⟩, And.left⟩
      rw [hall]
      exact ⟨_, rfl, gapBest_upto_next hpos hlen hwe hok.tree hal hAB hinv (not_le.1 hskip)⟩
    · exact ih (A ++ [n]) _ _ k hAB'
        (hinv.pass hpos hlen hwe hok.tree hal hAB (not_le.1 hskip) (not_le.1 hret)) hlf'

end Gaps

end Walk

/-! ## The window -/

section Window

variable {mgr : VmaManager} {T : RBTree Nat} {fuel len lo hi a : Nat}

/-- a window shorter than the length holds no placement -/
theorem fits_eq_empty (h : hi < lo + len) : {a | Fits mgr T lo hi len a} = ∅ :=
  Set.eq_empty_iff_forall_notMem.2 fun _ ⟨⟨_, hc, he⟩, _⟩ => by omega

/-- find_unmapped_area_in_window gives, for a page-aligned length, the highest placement in the window rounded to
pages, or -ENOMEM when there is none -/
theorem findUnmappedAreaInWindow_spec (hok : VmaOk mgr T) (hal : PageAligned mgr T) (hfuel : T.ids.length < fuel)
    (s e : Nat) (hpos : 0 < len) (hlen : len % PAGE_SIZE = 0) :
    ∃ r, findUnmappedAreaInWindow fuel mgr s e len = some r ∧
      GreatestOr {a | Fits mgr T (PADDING_UP s PAGE_SIZE) (PADDING_DOWN e PAGE_SIZE) len a} enomemRet r := by
  simp only [findUnmappedAreaInWindow]
  split_ifs with hempty hshort
  · exact ⟨_, rfl, .of_eq_empty (fits_eq_empty (by omega))⟩
  · exact ⟨_, rfl, .of_eq_empty (fits_eq_empty (by omega))⟩
  · rw [rbFirst_eq hok.tree.linked hfuel, Option.bind_some]
    have hinit : WalkInv mgr T (PADDING_UP s PAGE_SIZE) (PADDING_DOWN e PAGE_SIZE) len [] (PADDING_UP s PAGE_SIZE)
        enomemRet :=
      { aligned := paddingUp_aligned s
        start_le := le_rfl
        lt_end := by omega
        passed := by simp
        no_straddle := fun _ hfit => Or.inr hfit.1.2.1
        best := .of_eq_empty <| Set.eq_empty_iff_forall_notMem.2 fun _ ⟨hfit, hle⟩ => by
          have := hfit.1.2.1
          omega }
    exact findUnmappedAreaLoop_spec hpos hlen (paddingDown_aligned e) hok hal hfuel T.ids [] _ _ fuel rfl hinit hfuel

theorem enomemRet_mod : enomemRet % PAGE_SIZE ≠ 0 := by decide

theorem Fits.ne_enomemRet (h : Fits mgr T lo hi len a) : a ≠ enomemRet :=
  fun he => enomemRet_mod (he ▸ h.1.1)

theorem Fits.mono {lo' hi' : Nat} (h : Fits mgr T lo' hi' len a) (hlo : lo ≤ lo') (hhi : hi' ≤ hi) :
    Fits mgr T lo hi len a :=
  ⟨⟨h.1.1, hlo.trans h.1.2.1, h.1.2.2.trans hhi⟩, h.2⟩

theorem fits_paddingDown_iff (hlen : len % PAGE_SIZE = 0) :
    Fits mgr T lo (PADDING_DOWN hi PAGE_SIZE) len a ↔ Fits mgr T lo hi len a :=
  ⟨fun h => h.mono le_rfl (paddingDown_le hi),
    fun h => ⟨⟨h.1.1, h.1.2.1, (le_paddingDown_iff h.1.1 hlen).2 h.1.2.2⟩, h.2⟩⟩

end Window

/-! ## find_unmapped_area -/

/-- what find_unmapped_area is for, with `len` the length rounded up to pages: -ENOMEM only when
`[USER_MMAP_START, mmapTop)` holds no placement of it, a placement otherwise, and the hint's page whenever that is
one -/
def Placed (mgr : VmaManager) (T : RBTree Nat) (mmapTop hint len r : Nat) : Prop :=
  (r = enomemRet → ∀ a, ¬Fits mgr T USER_MMAP_START mmapTop len a) ∧
    (r ≠ enomemRet → Fits mgr T USER_MMAP_START mmapTop len r) ∧
    (Fits mgr T USER_MMAP_START mmapTop len (PADDING_DOWN hint PAGE_SIZE) → r = PADDING_DOWN hint PAGE_SIZE)

section Placed

variable {mgr : VmaManager} {T : RBTree Nat} {fuel mmapTop hint len r : Nat}

theorem placed_of_fits (h : Fits mgr T USER_MMAP_START mmapTop len r)
    (hhint : Fits mgr T USER_MMAP_START mmapTop len (PADDING_DOWN hint PAGE_SIZE) → r = PADDING_DOWN hint PAGE_SIZE) :
    Placed mgr T mmapTop hint len r :=
  ⟨fun he => absurd he h.ne_enomemRet, fun _ => h, hhint⟩

theorem placed_of_none (h : ∀ a, ¬Fits mgr T USER_MMAP_START mmapTop len a) :
    Placed mgr T mmapTop hint len enomemRet :=
  ⟨fun _ => h, fun hne => absurd rfl hne, fun hf => absurd hf (h _)⟩

/-- the highest placement, or -ENOMEM for none, when the hint's page is not one -/
theorem placed_of_greatestOr (hg : GreatestOr {a | Fits mgr T USER_MMAP_START mmapTop len a} enomemRet r)
    (hnot : ¬Fits mgr T USER_MMAP_START mmapTop len (PADDING_DOWN hint PAGE_SIZE)) :
    Placed mgr T mmapTop hint len r := by
  refine ⟨fun hr a ha => ?_, fun hne => hg.mem_of_ne hne, fun hf => absurd hf hnot⟩
  have hempty := hg.eq_empty (fun h => h.ne_enomemRet rfl) hr
  exact (Set.eq_empty_iff_forall_notMem.1 hempty) a ha

/-- an address out of the range the hint is taken from is no placement -/
theorem not_fits_of_out {x : Nat} (h : ¬(USER_MMAP_START ≤ x ∧ x ≤ mmapTop - len)) :
    ¬Fits mgr T USER_MMAP_START mmapTop len x :=
  fun hf => h ⟨hf.1.2.1, by have := hf.1.2.2; omega⟩

section Searches

variable (hok : VmaOk mgr T) (hal : PageAligned mgr T) (hfuel : T.ids.length < fuel) (hpos : 0 < len)
  (hlen : len % PAGE_SIZE = 0) (hnot : ¬Fits mgr T USER_MMAP_START mmapTop len (PADDING_DOWN hint PAGE_SIZE))
include hok hal hfuel hpos hlen hnot

/-- the last stage, the whole range, places the mapping when the hint's page cannot -/
theorem whole_placed :
    ∃ r, findUnmappedAreaInWindow fuel mgr USER_MMAP_START mmapTop len = some r ∧ Placed mgr T mmapTop hint len r := by
  obtain ⟨r, hr, hg⟩ := findUnmappedAreaInWindow_spec hok hal hfuel USER_MMAP_START mmapTop hpos hlen
  have hstart : PADDING_UP USER_MMAP_START PAGE_SIZE = USER_MMAP_START := by decide
  simp only [hstart, fits_paddingDown_iff hlen] at hg
  exact ⟨r, hr, placed_of_greatestOr hg hnot⟩

/-- a search of a window inside the range: a result that passes the sign check is a placement, and otherwise the
next stage's result is taken -/
theorem window_bind_placed {lo hi : Nat} {next : Option Nat} (hlo : USER_MMAP_START ≤ PADDING_UP lo PAGE_SIZE)
    (hhi : hi ≤ mmapTop) (hnext : ∃ r, next = some r ∧ Placed mgr T mmapTop hint len r) :
    ∃ r, ((findUnmappedAreaInWindow fuel mgr lo hi len).bind fun w => if w < 2 ^ 63 then some w else next) = some r ∧
      Placed mgr T mmapTop hint len r := by
  obtain ⟨w, hw, hg⟩ := findUnmappedAreaInWindow_spec hok hal hfuel lo hi hpos hlen
  rw [hw, Option.bind_some]
  split_ifs with hsign
  · have hne : w ≠ enomemRet := by unfold enomemRet ENOMEM; omega
    exact ⟨w, rfl, placed_of_fits ((hg.mem_of_ne hne).mono hlo ((paddingDown_le hi).trans hhi))
      fun h => absurd h hnot⟩
  · exact hnext

end Searches

/-- PADDING_UP rounds a length up to pages when the sum does not wrap -/
theorem paddingUp_eq_round (h : len + PAGE_SIZE - 1 < 2 ^ 64) :
    PADDING_UP len PAGE_SIZE = PADDING_DOWN (len + PAGE_SIZE - 1) PAGE_SIZE := by
  unfold PADDING_UP
  rw [Nat.mod_eq_of_lt h]

/-- a length in the last page below 2^64 rounds to 0 in 64 bits -/
theorem paddingUp_eq_zero (h : 2 ^ 64 ≤ len + PAGE_SIZE - 1) (h' : len < 2 ^ 64) : PADDING_UP len PAGE_SIZE = 0 := by
  unfold PADDING_UP PADDING_DOWN PAGE_SIZE at *
  omega

/-- find_unmapped_area places a mapping of the length rounded up to pages for every hint -/
theorem findUnmappedArea_spec (hok : VmaOk mgr T) (hal : PageAligned mgr T) (hfuel : T.ids.length < fuel)
    (htop : mmapTop < 2 ^ 64) (hint : Nat) (hpos : 0 < len) (hlen64 : len < 2 ^ 64) :
    ∃ r, findUnmappedArea fuel mgr mmapTop hint len = some r ∧
      Placed mgr T mmapTop hint (PADDING_DOWN (len + PAGE_SIZE - 1) PAGE_SIZE) r := by
  by_cases hwrap : 2 ^ 64 ≤ len + PAGE_SIZE - 1
  · refine ⟨enomemRet, by simp [findUnmappedArea, paddingUp_eq_zero hwrap hlen64, hpos.ne'], placed_of_none ?_⟩
    rintro a ⟨⟨-, hstart, hend⟩, -⟩
    have hL : len ≤ PADDING_DOWN (len + PAGE_SIZE - 1) PAGE_SIZE := by unfold PADDING_DOWN PAGE_SIZE; omega
    unfold USER_MMAP_START at hstart
    unfold PAGE_SIZE at hwrap
    omega
  have hLpos : 0 < PADDING_DOWN (len + PAGE_SIZE - 1) PAGE_SIZE := by unfold PADDING_DOWN PAGE_SIZE; omega
  have hLal := paddingDown_aligned (len + PAGE_SIZE - 1)
  simp only [findUnmappedArea, hpos.ne', if_false, paddingUp_eq_round (not_le.1 hwrap)]
  generalize PADDING_DOWN (len + PAGE_SIZE - 1) PAGE_SIZE = L at hLpos hLal ⊢
  rw [if_neg hLpos.ne']
  by_cases hroom : mmapTop ≤ USER_MMAP_START ∨ mmapTop - USER_MMAP_START < L
  · rw [if_pos hroom]
    exact ⟨_, rfl, placed_of_none fun a ⟨⟨_, hs, he⟩, _⟩ => by omega⟩
  rw [if_neg hroom]
  by_cases hh0 : hint = 0
  · rw [if_pos hh0]
    subst hh0
    exact whole_placed hok hal hfuel hLpos hLal (not_fits_of_out fun h => absurd h.1 (by decide))
  rw [if_neg hh0]
  by_cases hrange : USER_MMAP_START ≤ PADDING_DOWN hint PAGE_SIZE ∧ PADDING_DOWN hint PAGE_SIZE ≤ mmapTop - L
  swap
  · rw [if_pos hrange]
    exact whole_placed hok hal hfuel hLpos hLal (not_fits_of_out hrange)
  rw [if_neg (not_not.2 hrange)]
  obtain ⟨hit, hhit, hnone, hsome⟩ :=
    vmaFindIntersection_spec hok.tree hfuel.le (PADDING_DOWN hint PAGE_SIZE) (PADDING_DOWN hint PAGE_SIZE + L)
  rw [hhit, Option.bind_some]
  rcases hit with _ | x
  · rw [if_pos rfl]
    refine ⟨_, rfl, placed_of_fits ⟨⟨paddingDown_aligned hint, hrange.1, by omega⟩, fun x hx => ?_⟩ fun _ => rfl⟩
    have := hnone.1 rfl x hx
    omega
  rw [if_neg (Option.some_ne_none x)]
  have hnot : ¬Fits mgr T USER_MMAP_START mmapTop L (PADDING_DOWN hint PAGE_SIZE) := by
    obtain ⟨hx, hlt, hgt⟩ := hsome x rfl
    intro hf
    rcases hf.2 x hx with h | h <;> omega
  have hstart : USER_MMAP_START ≤ PADDING_UP USER_MMAP_START PAGE_SIZE := by decide
  have hbelow := window_bind_placed hok hal hfuel hLpos hLal hnot hstart
    (show PADDING_DOWN hint PAGE_SIZE ≤ mmapTop by omega)
    (whole_placed hok hal hfuel hLpos hLal hnot)
  by_cases habove : PADDING_DOWN hint PAGE_SIZE + L < mmapTop
  · rw [if_pos habove]
    have hup : PADDING_UP (PADDING_DOWN hint PAGE_SIZE + L) PAGE_SIZE = PADDING_DOWN hint PAGE_SIZE + L :=
      paddingUp_of_aligned (by rw [Nat.add_mod, paddingDown_aligned, hLal, Nat.add_zero, Nat.zero_mod])
        (habove.trans htop)
    exact window_bind_placed hok hal hfuel hLpos hLal hnot (by rw [hup]; omega) le_rfl hbelow
  · rw [if_neg habove]
    exact hbelow

end Placed

section Placement

variable {mgr : VmaManager} {T : RBTree Nat} {fuel mmapTop : Nat}

/-- find_unmapped_area places every mapping by its hint or its first fit, and find_unmapped_area_in_window gives
the highest placement of a page-aligned length in its rounded window -/
theorem find_unmapped_area_places (hok : VmaOk mgr T) (hal : PageAligned mgr T) (hfuel : T.ids.length < fuel)
    (htop : mmapTop < 2 ^ 64) :
    (∀ hint len, 0 < len → len < 2 ^ 64 → ∃ r, findUnmappedArea fuel mgr mmapTop hint len = some r ∧
        Placed mgr T mmapTop hint (PADDING_DOWN (len + PAGE_SIZE - 1) PAGE_SIZE) r) ∧
      ∀ s e len, 0 < len → len % PAGE_SIZE = 0 → ∃ r, findUnmappedAreaInWindow fuel mgr s e len = some r ∧
        GreatestOr {a | Fits mgr T (PADDING_UP s PAGE_SIZE) (PADDING_DOWN e PAGE_SIZE) len a} enomemRet r :=
  ⟨fun hint _ hpos hlen64 => findUnmappedArea_spec hok hal hfuel htop hint hpos hlen64,
    fun s e _ hpos hlen => findUnmappedAreaInWindow_spec hok hal hfuel s e hpos hlen⟩

/-- the address space with no VMA and the mmap top of a fresh one, USER_MMAP_END -/
theorem find_unmapped_area_places_noVmas :
    VmaOk noVmas .leaf ∧ PageAligned noVmas .leaf ∧
      ∀ hint len, 0 < len → len < 2 ^ 64 → ∃ r, findUnmappedArea 1 noVmas 0x00007f0000000000 hint len = some r ∧
        Placed noVmas .leaf 0x00007f0000000000 hint (PADDING_DOWN (len + PAGE_SIZE - 1) PAGE_SIZE) r :=
  have hal : PageAligned noVmas .leaf := by simp [PageAligned]
  ⟨noVmas_ok, hal, (find_unmapped_area_places noVmas_ok hal (by decide) (by decide)).1⟩

end Placement

end Naos.Vmas
