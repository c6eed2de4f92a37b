/-
The EEVDF pick of sched.c: sched_first_eligible_locked, sched_pick_min_fallback_locked and sched_pick_eevdf_locked,
on a run tree linked in the heap of rbtree.c.

Each queued entity keeps in subtree_min_vruntime the least vruntime of its subtree, as
sched_update_subtree_min_vruntime computes it from its own vruntime and the fields of its children (`MinExact`).
sched_first_eligible_locked skips a subtree whose minimum is above the bound and else visits the left subtree, the
node and the right subtree, in that order. `firstEligibleScan` is the linear scan it stands for: the in-order
sequence of the tree, one entity after the other, with the same cleanup_queued updates.

Results:
- `schedFirstEligibleLocked_eq`: on a linked subtree with exact minima, the pruned recursion gives what the linear
  scan of its in-order sequence gives, cleanup_queued included;
- `firstEligibleScan_fst`: the scan gives the first eligible entity whose task is READY and not the excluded one;
- `schedPickMinFallbackLoop_spec`: the fallback walk with rb_next gives an entity it may run, and none only when
  no queued entity may run;
- `sched_first_eligible_scan`: the two together for the run tree of a run queue, and what sched_pick_eevdf_locked
  gives.
-/
import Naos.Libs.RbTreeIter

namespace Naos.Sched

open RedBlack RBTree Naos.RbTree

/-- UINT64_MAX, the subtree minimum sched_subtree_min_vruntime gives an empty subtree -/
def UINT64_MAX : Nat := 2 ^ 64 - 1

/-! ## The model -/

/-- the fields of struct sched_entity the pick reads; `task` is the task pointer, NULL as `none` -/
structure SchedEntity where
  vruntime : Nat
  subtreeMinVruntime : Nat
  task : Option Nat

/-- the fields of sched_rq_t the pick reads and writes: the run tree, the entity of each of its nodes, min_vruntime
and cleanup_queued -/
structure SchedRq where
  runTree : RbHeap Unit
  entities : Nat → SchedEntity
  minVruntime : Nat
  cleanupQueued : Bool

/-- `scheduler->cleanup_queued = true;` -/
def SchedRq.markCleanup (rq : SchedRq) : SchedRq := { rq with cleanupQueued := true }

/-- sched_subtree_min_vruntime -/
def schedSubtreeMinVruntime (rq : SchedRq) : Option Nat → Nat
  | none => UINT64_MAX
  | some n => (rq.entities n).subtreeMinVruntime

/-- the value sched_update_subtree_min_vruntime stores in the node `n` -/
def schedUpdateSubtreeMinVruntime (rq : SchedRq) (n : Nat) : Nat :=
  let minVruntime := (rq.entities n).vruntime
  let childMin := schedSubtreeMinVruntime rq (rq.runTree.nodes n).left
  let minVruntime := if childMin < minVruntime then childMin else minVruntime
  let childMin := schedSubtreeMinVruntime rq (rq.runTree.nodes n).right
  if childMin < minVruntime then childMin else minVruntime

/-- sched_entity_eligible_locked -/
def schedEntityEligibleLocked (minVruntime : Nat) (se : SchedEntity) : Bool := decide (se.vruntime ≤ minVruntime)

/-- sched_first_eligible_locked; `ready t` is `t->state == TASK_READY`, and the fuel bounds the depth of the
recursion -/
def schedFirstEligibleLocked (ready : Nat → Bool) : Nat → SchedRq → Option Nat → Nat → Option Nat →
    Option (Option Nat × SchedRq)
  | 0, _, _, _, _ => none
  | _ + 1, rq, none, _, _ => some (none, rq)
  | fuel + 1, rq, some n, maxVruntime, excluded =>
    if schedSubtreeMinVruntime rq (some n) > maxVruntime then some (none, rq)
    else do
      let (eligible, rq) ← schedFirstEligibleLocked ready fuel rq (rq.runTree.nodes n).left maxVruntime excluded
      match eligible with
      | some e => some (some e, rq)
      | none =>
        let entity := rq.entities n
        let right := (rq.runTree.nodes n).right
        if schedEntityEligibleLocked maxVruntime entity then
          match entity.task with
          | none => schedFirstEligibleLocked ready fuel rq.markCleanup right maxVruntime excluded
          | some candidate =>
            if !ready candidate then schedFirstEligibleLocked ready fuel rq.markCleanup right maxVruntime excluded
            else if some candidate ≠ excluded then some (some n, rq)
            else schedFirstEligibleLocked ready fuel rq right maxVruntime excluded
        else schedFirstEligibleLocked ready fuel rq right maxVruntime excluded

/-- the loop of sched_pick_min_fallback_locked over the nodes from `node` on, with the best entity so far; the rb
walk has fuel `fuel` and the loop `loopFuel` -/
def schedPickMinFallbackLoop (ready : Nat → Bool) (fuel : Nat) (excluded : Option Nat) :
    Nat → SchedRq → Option Nat → Option Nat → Option (Option Nat × SchedRq)
  | 0, _, _, _ => none
  | _ + 1, rq, none, best => some (best, rq)
  | loopFuel + 1, rq, some n, best => do
    let next ← rbNext fuel rq.runTree n
    let entity := rq.entities n
    match entity.task with
    | none => schedPickMinFallbackLoop ready fuel excluded loopFuel rq.markCleanup next best
    | some candidate =>
      if !ready candidate then schedPickMinFallbackLoop ready fuel excluded loopFuel rq.markCleanup next best
      else if some candidate = excluded then schedPickMinFallbackLoop ready fuel excluded loopFuel rq next best
      else
        match best with
        | none => schedPickMinFallbackLoop ready fuel excluded loopFuel rq next (some n)
        | some b =>
          if entity.vruntime < (rq.entities b).vruntime then
            schedPickMinFallbackLoop ready fuel excluded loopFuel rq next (some n)
          else schedPickMinFallbackLoop ready fuel excluded loopFuel rq next best

/-- sched_pick_min_fallback_locked -/
def schedPickMinFallbackLocked (ready : Nat → Bool) (fuel : Nat) (rq : SchedRq) (excluded : Option Nat) :
    Option (Option Nat × SchedRq) := do
  let first ← rbFirst fuel rq.runTree
  schedPickMinFallbackLoop ready fuel excluded fuel rq first none

/-- sched_pick_eevdf_locked -/
def schedPickEevdfLocked (ready : Nat → Bool) (fuel : Nat) (rq : SchedRq) (excluded : Option Nat) :
    Option (Option Nat × SchedRq) :=
  match rq.runTree.root with
  | none => some (none, rq)
  | some root =>
    let queuedMin := schedSubtreeMinVruntime rq (some root)
    let effectiveMinVruntime := if queuedMin > rq.minVruntime then queuedMin else rq.minVruntime
    do
      let (eligible, rq) ← schedFirstEligibleLocked ready fuel rq (some root) effectiveMinVruntime excluded
      match eligible with
      | some e => some (some e, rq)
      | none => schedPickMinFallbackLocked ready fuel rq excluded

/-! ## What the pick stands for -/

section Spec

variable (ready : Nat → Bool) (excluded : Option Nat)

/-- the entity's task is READY and not the excluded one: the pick may run it -/
def runnable (se : SchedEntity) : Bool :=
  match se.task with
  | some t => ready t && decide (some t ≠ excluded)
  | none => false

/-- the linear in-order scan sched_first_eligible_locked stands for: each entity in turn, with the same checks and
the same cleanup_queued updates, up to the first it returns -/
def firstEligibleScan (maxVruntime : Nat) : List Nat → SchedRq → Option Nat × SchedRq
  | [], rq => (none, rq)
  | n :: L, rq =>
    let entity := rq.entities n
    if schedEntityEligibleLocked maxVruntime entity then
      match entity.task with
      | none => firstEligibleScan maxVruntime L rq.markCleanup
      | some candidate =>
        if !ready candidate then firstEligibleScan maxVruntime L rq.markCleanup
        else if some candidate ≠ excluded then (some n, rq)
        else firstEligibleScan maxVruntime L rq
    else firstEligibleScan maxVruntime L rq

theorem firstEligibleScan_cons (maxVruntime n : Nat) (L : List Nat) (rq : SchedRq) :
    firstEligibleScan ready excluded maxVruntime (n :: L) rq =
      if schedEntityEligibleLocked maxVruntime (rq.entities n) then
        match (rq.entities n).task with
        | none => firstEligibleScan ready excluded maxVruntime L rq.markCleanup
        | some candidate =>
          if !ready candidate then firstEligibleScan ready excluded maxVruntime L rq.markCleanup
          else if some candidate ≠ excluded then (some n, rq)
          else firstEligibleScan ready excluded maxVruntime L rq
      else firstEligibleScan ready excluded maxVruntime L rq := rfl

/-- the best entity once the fallback has looked at `n`: `n` when it may run and there is no best so far or it
has a smaller vruntime, and the best so far otherwise -/
def fallbackBest (rq : SchedRq) (n : Nat) (best : Option Nat) : Option Nat :=
  if runnable ready excluded (rq.entities n) then
    match best with
    | none => some n
    | some b => if (rq.entities n).vruntime < (rq.entities b).vruntime then some n else best
  else best

/-- every node of the tree holds in subtree_min_vruntime what sched_update_subtree_min_vruntime computes for it -/
def MinExact (rq : SchedRq) (t : RBTree Nat) : Prop :=
  ∀ n ∈ t.ids, (rq.entities n).subtreeMinVruntime = schedUpdateSubtreeMinVruntime rq n

instance (rq : SchedRq) (t : RBTree Nat) : Decidable (MinExact rq t) :=
  inferInstanceAs (Decidable (∀ n ∈ t.ids, _))

variable {rq : SchedRq}

@[simp] theorem entities_markCleanup : rq.markCleanup.entities = rq.entities := rfl
@[simp] theorem runTree_markCleanup : rq.markCleanup.runTree = rq.runTree := rfl

/-- the scan of a concatenation: the scan of the first part, and if it finds nothing the scan of the rest from the
run queue it leaves -/
theorem firstEligibleScan_append (maxVruntime : Nat) (L₁ L₂ : List Nat) (rq : SchedRq) :
    firstEligibleScan ready excluded maxVruntime (L₁ ++ L₂) rq =
      match firstEligibleScan ready excluded maxVruntime L₁ rq with
      | (some e, rq') => (some e, rq')
      | (none, rq') => firstEligibleScan ready excluded maxVruntime L₂ rq' := by
  induction L₁ generalizing rq with
  | nil => rfl
  | cons n L₁ ih =>
    simp only [List.cons_append, firstEligibleScan]
    split_ifs <;> (try split) <;> (try split_ifs) <;> simp_all

theorem markCleanup_with (b : Bool) : ({ rq with cleanupQueued := b } : SchedRq).markCleanup =
    { rq with cleanupQueued := true } := rfl

/-- the scan changes cleanup_queued only -/
theorem firstEligibleScan_eq_flag (maxVruntime : Nat) (L : List Nat) (rq : SchedRq) :
    firstEligibleScan ready excluded maxVruntime L rq =
      ((firstEligibleScan ready excluded maxVruntime L rq).1,
        { rq with cleanupQueued := (firstEligibleScan ready excluded maxVruntime L rq).2.cleanupQueued }) := by
  induction L generalizing rq with
  | nil => rfl
  | cons n L ih =>
    rw [firstEligibleScan_cons]
    split_ifs
    · split
      · exact ih _
      · split_ifs
        · exact ih _
        · rfl
        · exact ih _
    · exact ih _

/-- a scan of entities all above the bound finds nothing and changes nothing -/
theorem firstEligibleScan_of_gt {maxVruntime : Nat} {L : List Nat} (hgt : ∀ n ∈ L, maxVruntime < (rq.entities n).vruntime) :
    firstEligibleScan ready excluded maxVruntime L rq = (none, rq) := by
  induction L with
  | nil => rfl
  | cons n L ih =>
    have hn : schedEntityEligibleLocked maxVruntime (rq.entities n) = false := by
      simpa [schedEntityEligibleLocked] using hgt n (List.mem_cons_self ..)
    rw [firstEligibleScan_cons]
    simp only [hn, Bool.false_eq_true, if_false]
    exact ih fun m hm => hgt m (List.mem_cons_of_mem _ hm)

/-- the scan gives the first entity that is eligible and may run -/
theorem firstEligibleScan_fst (maxVruntime : Nat) (L : List Nat) (rq : SchedRq) :
    (firstEligibleScan ready excluded maxVruntime L rq).1 =
      L.find? fun n => schedEntityEligibleLocked maxVruntime (rq.entities n) && runnable ready excluded (rq.entities n) := by
  induction L generalizing rq with
  | nil => rfl
  | cons n L ih =>
    rw [firstEligibleScan_cons]
    by_cases he : schedEntityEligibleLocked maxVruntime (rq.entities n) = true
    · cases ht : (rq.entities n).task with
      | none => simp [he, ht, runnable, ih]
      | some t =>
        by_cases hr : ready t = true
        · by_cases hx : some t = excluded
          · subst hx
            simp [he, ht, hr, runnable, ih]
          · simp [he, ht, hr, hx, runnable]
        · simp [he, ht, hr, runnable, ih]
    · simp [he, ih]

/-! ### The pruned recursion -/

theorem MinExact.left {l r : RBTree Nat} {c : Color} {x : Nat} (hmin : MinExact rq (.node l c x r)) :
    MinExact rq l := fun n hn => hmin n (by simp [hn])

theorem MinExact.right {l r : RBTree Nat} {c : Color} {x : Nat} (hmin : MinExact rq (.node l c x r)) :
    MinExact rq r := fun n hn => hmin n (by simp [hn])

/-- with exact minima, the minimum a subtree's root holds is at most the vruntime of each of its entities. The
induction is on the subtree; the minimum of an empty child is UINT64_MAX and bounds nothing. -/
theorem subtreeMin_le {par : Option Nat} {t : RBTree Nat} (ht : Linked rq.runTree.nodes par t)
    (hmin : MinExact rq t) : ∀ n ∈ t.ids, schedSubtreeMinVruntime rq t.top ≤ (rq.entities n).vruntime := by
  induction t generalizing par with
  | leaf => simp
  | node l c x r ihl ihr =>
    rw [linked_node] at ht
    obtain ⟨hx, hl, hr⟩ := ht
    have hl' := ihl hl hmin.left
    have hr' := ihr hr hmin.right
    have hval : schedSubtreeMinVruntime rq (some x) ≤ (rq.entities x).vruntime ∧
        schedSubtreeMinVruntime rq (some x) ≤ schedSubtreeMinVruntime rq l.top ∧
        schedSubtreeMinVruntime rq (some x) ≤ schedSubtreeMinVruntime rq r.top := by
      rw [schedSubtreeMinVruntime, hmin x (by simp), schedUpdateSubtreeMinVruntime, hx]
      dsimp only
      split_ifs <;> omega
    intro n hn
    simp only [ids_node, List.mem_append, List.mem_cons] at hn
    rcases hn with hn | rfl | hn
    · exact hval.2.1.trans (hl' n hn)
    · exact hval.1
    · exact hval.2.2.trans (hr' n hn)

/-- on a linked subtree with exact minima, with fuel beyond its size, sched_first_eligible_locked gives what the
linear scan of its in-order sequence gives. The induction is on the subtree: a pruned subtree has no eligible
entity, and else the left subtree, the node and the right subtree are the three parts of the sequence. -/
theorem schedFirstEligibleLocked_eq (maxVruntime : Nat) {par : Option Nat} {t : RBTree Nat} (ht : Linked rq.runTree.nodes par t)
    (hmin : MinExact rq t) {fuel : Nat} (hfuel : t.ids.length < fuel) :
    schedFirstEligibleLocked ready fuel rq t.top maxVruntime excluded =
      some (firstEligibleScan ready excluded maxVruntime t.ids rq) := by
  induction t generalizing par rq fuel with
  | leaf =>
    obtain ⟨fuel, rfl⟩ : ∃ f, fuel = f + 1 := ⟨fuel - 1, by simp at hfuel; omega⟩
    rfl
  | node l c x r ihl ihr =>
    obtain ⟨fuel, rfl⟩ : ∃ f, fuel = f + 1 := ⟨fuel - 1, by simp at hfuel; omega⟩
    have hlinked := ht
    rw [linked_node] at ht
    obtain ⟨hx, hl, hr⟩ := ht
    simp only [ids_node, List.length_append, List.length_cons] at hfuel
    by_cases hprune : schedSubtreeMinVruntime rq (some x) > maxVruntime
    · rw [top_node, schedFirstEligibleLocked, if_pos hprune,
        firstEligibleScan_of_gt ready excluded fun n hn => lt_of_lt_of_le hprune (subtreeMin_le hlinked hmin n hn)]
    · have hleft := ihl hl hmin.left (show l.ids.length < fuel by omega)
      rw [top_node, schedFirstEligibleLocked, if_neg hprune, hx]
      simp only [Option.bind_eq_bind, hleft, Option.bind_some, ids_node, firstEligibleScan_append]
      obtain ⟨eligible, c', hs⟩ : ∃ e c', firstEligibleScan ready excluded maxVruntime l.ids rq =
          (e, { rq with cleanupQueued := c' }) := ⟨_, _, firstEligibleScan_eq_flag ready excluded maxVruntime l.ids rq⟩
      rw [hs]
      cases eligible with
      | some e => rfl
      | none =>
        have hright : (rq.runTree.nodes x).right = r.top := by simp [hx]
        have hrec : ∀ b : Bool, schedFirstEligibleLocked ready fuel { rq with cleanupQueued := b } r.top maxVruntime
            excluded = some (firstEligibleScan ready excluded maxVruntime r.ids { rq with cleanupQueued := b }) :=
          fun b => @ihr { rq with cleanupQueued := b } (some x) hr hmin.right fuel (by omega)
        by_cases he : schedEntityEligibleLocked maxVruntime (rq.entities x) = true
        · cases ht : (rq.entities x).task with
          | none => simp [firstEligibleScan_cons, he, ht, hright, markCleanup_with, hrec]
          | some t =>
            by_cases hrd : ready t = true
            · by_cases hex : some t = excluded
              · subst hex
                simp [firstEligibleScan_cons, he, ht, hrd, hright, hrec]
              · simp [firstEligibleScan_cons, he, ht, hrd, hex]
            · simp [firstEligibleScan_cons, he, ht, hrd, hright, markCleanup_with, hrec]
        · simp [firstEligibleScan_cons, he, hright, hrec]

/-! ### The fallback -/

/-- one pass of the fallback loop: it looks at `n` and goes on to the next node, from a run queue that differs at
most in cleanup_queued -/
theorem schedPickMinFallbackLoop_step {fuel n : Nat} (k : Nat) {next : Option Nat} (best : Option Nat)
    (hnext : rbNext fuel rq.runTree n = some next) : ∃ c,
    schedPickMinFallbackLoop ready fuel excluded (k + 1) rq (some n) best =
      schedPickMinFallbackLoop ready fuel excluded k { rq with cleanupQueued := c } next
        (fallbackBest ready excluded rq n best) := by
  simp only [schedPickMinFallbackLoop, hnext, Option.bind_eq_bind, Option.bind_some]
  cases ht : (rq.entities n).task with
  | none => exact ⟨true, by simp [fallbackBest, runnable, ht, SchedRq.markCleanup]⟩
  | some t =>
    by_cases hrd : ready t = true
    · by_cases hex : some t = excluded
      · subst hex
        exact ⟨rq.cleanupQueued, by simp [fallbackBest, runnable, ht, hrd]⟩
      · refine ⟨rq.cleanupQueued, ?_⟩
        cases best with
        | none => simp [fallbackBest, runnable, ht, hrd, hex]
        | some b =>
          by_cases hlt : (rq.entities n).vruntime < (rq.entities b).vruntime <;>
            simp [fallbackBest, runnable, ht, hrd, hex, hlt]
    · exact ⟨true, by simp [fallbackBest, runnable, ht, hrd, SchedRq.markCleanup]⟩

theorem fallbackBest_eq_none {rq : SchedRq} {n : Nat} {best : Option Nat} :
    fallbackBest ready excluded rq n best = none ↔ best = none ∧ runnable ready excluded (rq.entities n) = false := by
  unfold fallbackBest
  split_ifs with h
  · cases best with
    | none => simp [h]
    | some b =>
      dsimp only
      split_ifs <;> simp [h]
  · simp [h]

theorem fallbackBest_eq_some {rq : SchedRq} {n m : Nat} {best : Option Nat}
    (h : fallbackBest ready excluded rq n best = some m) :
    (best = some m) ∨ (m = n ∧ runnable ready excluded (rq.entities n) = true) := by
  unfold fallbackBest at h
  split_ifs at h with hr
  · cases best with
    | none => exact .inr ⟨(Option.some.inj h).symm, hr⟩
    | some b =>
      dsimp only at h
      split_ifs at h
      · exact .inr ⟨(Option.some.inj h).symm, hr⟩
      · exact .inl h
  · exact .inl h

/-- the walk of sched_pick_min_fallback_locked from the first node of `B`, where the in-order sequence of the tree is
`A ++ B`, with loop fuel beyond `B`: it gives an entity that may run, the best so far or one of `B`, and none only
when there is no best so far and no entity of `B` may run. The induction is on `B`, with the split moved one node on
at each step. -/
theorem schedPickMinFallbackLoop_spec {T : RBTree Nat} {fuel : Nat} (hat : At rq.runTree [] T)
    (hfuel : T.ids.length < fuel) (B : List Nat) : ∀ (A : List Nat) (c : Bool) (best : Option Nat) (loopFuel : Nat),
    T.ids = A ++ B → B.length < loopFuel → (∀ b, best = some b → runnable ready excluded (rq.entities b) = true) →
    ∃ r rq', schedPickMinFallbackLoop ready fuel excluded loopFuel { rq with cleanupQueued := c } B.head? best =
        some (r, rq') ∧
      (r = none ↔ best = none ∧ ∀ n ∈ B, runnable ready excluded (rq.entities n) = false) ∧
      ∀ n, r = some n → runnable ready excluded (rq.entities n) = true ∧ (best = some n ∨ n ∈ B) := by
  induction B with
  | nil =>
    intro A c best loopFuel _ hloop hbest
    obtain ⟨k, rfl⟩ : ∃ k, loopFuel = k + 1 := ⟨loopFuel - 1, by simp at hloop; omega⟩
    refine ⟨best, _, rfl, by simp, fun n hn => ⟨hbest n hn, .inl hn⟩⟩
  | cons x B ih =>
    intro A c best loopFuel hAB hloop hbest
    obtain ⟨k, rfl⟩ : ∃ k, loopFuel = k + 1 := ⟨loopFuel - 1, by simp at hloop; omega⟩
    have hnext : rbNext fuel ({ rq with cleanupQueued := c } : SchedRq).runTree x = some B.head? :=
      rbNext_eq hat hAB hfuel
    obtain ⟨c', hstep⟩ := schedPickMinFallbackLoop_step ready excluded k best hnext
    have hbest' : ∀ b, fallbackBest ready excluded rq x best = some b → runnable ready excluded (rq.entities b) = true := by
      intro b hb
      rcases fallbackBest_eq_some ready excluded hb with hb | ⟨rfl, hr⟩
      exacts [hbest b hb, hr]
    obtain ⟨r, rq', hrun, hnone, hsome⟩ := ih (A ++ [x]) c' (fallbackBest ready excluded rq x best) k
      (by simp [hAB]) (by simp at hloop; omega) hbest'
    refine ⟨r, rq', hstep.trans hrun, ?_, fun n hn => ?_⟩
    · rw [hnone, fallbackBest_eq_none]
      simp [and_assoc]
    · obtain ⟨hr, hn'⟩ := hsome n hn
      refine ⟨hr, ?_⟩
      rcases hn' with hn' | hn'
      · rcases fallbackBest_eq_some ready excluded hn' with hb | ⟨rfl, -⟩
        exacts [.inl hb, .inr (List.mem_cons_self ..)]
      · exact .inr (List.mem_cons_of_mem _ hn')

/-! ### The pick -/

/-- sched_first_eligible_locked on the run tree gives the first eligible entity whose task may run, as the linear
in-order scan does, with the same cleanup_queued; and sched_pick_eevdf_locked gives an entity that may run, and
NULL only when no queued entity may run -/
theorem sched_first_eligible_scan {T : RBTree Nat} (fuel : Nat) (hat : At rq.runTree [] T) (hmin : MinExact rq T)
    (hfuel : T.ids.length < fuel) (maxVruntime : Nat) :
    schedFirstEligibleLocked ready fuel rq rq.runTree.root maxVruntime excluded =
        some (firstEligibleScan ready excluded maxVruntime T.ids rq) ∧
      (firstEligibleScan ready excluded maxVruntime T.ids rq).1 =
        T.ids.find? (fun n => schedEntityEligibleLocked maxVruntime (rq.entities n) &&
          runnable ready excluded (rq.entities n)) ∧
      ∃ r rq', schedPickEevdfLocked ready fuel rq excluded = some (r, rq') ∧
        (r = none ↔ ∀ n ∈ T.ids, runnable ready excluded (rq.entities n) = false) ∧
        ∀ n, r = some n → n ∈ T.ids ∧ runnable ready excluded (rq.entities n) = true := by
  have hroot : rq.runTree.root = T.top := hat.path
  refine ⟨hroot ▸ schedFirstEligibleLocked_eq ready excluded maxVruntime hat.tree hmin hfuel,
    firstEligibleScan_fst ready excluded maxVruntime T.ids rq, ?_⟩
  cases T with
  | leaf => exact ⟨none, rq, by simp [schedPickEevdfLocked, hroot], by simp, fun _ h => (nomatch h)⟩
  | node l c x r =>
    rw [schedPickEevdfLocked, hroot, top_node]
    dsimp only
    generalize (if schedSubtreeMinVruntime rq (some x) > rq.minVruntime then schedSubtreeMinVruntime rq (some x)
      else rq.minVruntime) = E
    have hfirst := schedFirstEligibleLocked_eq ready excluded E hat.tree hmin hfuel
    rw [top_node] at hfirst
    have hfind := firstEligibleScan_fst ready excluded E (RBTree.node l c x r).ids rq
    simp only [hfirst, Option.bind_eq_bind, Option.bind_some]
    cases he : (firstEligibleScan ready excluded E (RBTree.node l c x r).ids rq).1 with
    | some e =>
      have hfe := hfind.symm.trans he
      have he' := List.find?_some hfe
      simp only [Bool.and_eq_true] at he'
      have heT := List.mem_of_find?_eq_some hfe
      refine ⟨some e, _, rfl, ⟨fun h => (nomatch h), fun h => absurd he'.2 (by rw [h e heT]; simp)⟩, fun n hn => ?_⟩
      cases hn
      exact ⟨heT, he'.2⟩
    | none =>
      obtain ⟨c', hc'⟩ : ∃ c', (firstEligibleScan ready excluded E (RBTree.node l c x r).ids rq).2 =
          { rq with cleanupQueued := c' } :=
        ⟨_, congrArg Prod.snd (firstEligibleScan_eq_flag ready excluded E (RBTree.node l c x r).ids rq)⟩
      obtain ⟨r', rq', hrun, hnone, hsome⟩ := schedPickMinFallbackLoop_spec ready excluded hat hfuel
        (RBTree.node l c x r).ids [] c' none fuel rfl hfuel (fun _ h => (nomatch h))
      refine ⟨r', rq', ?_, by simpa using hnone, fun n hn => ⟨(hsome n hn).2.resolve_left (by simp), (hsome n hn).1⟩⟩
      simp only [hc', schedPickMinFallbackLocked, rbFirst_eq hat hfuel, Option.bind_eq_bind, Option.bind_some]
      exact hrun

/-- a run queue of three entities, linked as the black root 2 over the red nodes 1 and 3: node 1 runs late
(vruntime 10), nodes 2 and 3 have vruntime 4 and 6, the tasks are 7, 8 and 9, and min_vruntime is 5 -/
def threeEntityRq : SchedRq where
  runTree :=
    { nodes := fun i =>
        if i = 2 then ⟨none, .black, some 3, some 1⟩
        else if i = 1 ∨ i = 3 then ⟨some 2, .red, none, none⟩ else ⟨none, .red, none, none⟩
      data := fun _ => ()
      root := some 2 }
  entities i :=
    if i = 1 then ⟨10, 10, some 7⟩ else if i = 2 then ⟨4, 4, some 8⟩ else ⟨6, 6, some 9⟩
  minVruntime := 5
  cleanupQueued := false

/-- on `threeEntityRq`, with every task READY and none excluded, the search from the root with bound 5 skips the
left subtree, whose minimum 10 is past the bound, and returns the root -/
theorem sched_first_eligible_scan_threeEntities :
    schedSubtreeMinVruntime threeEntityRq (some 1) > 5 ∧
      (schedFirstEligibleLocked (fun _ => true) 4 threeEntityRq threeEntityRq.runTree.root 5 none).map Prod.fst =
        some (some 2) := by
  have hat : At threeEntityRq.runTree []
      (.node (.node .leaf .red 1 .leaf) .black 2 (.node .leaf .red 3 .leaf)) :=
    ⟨rfl, by simp [threeEntityRq, pathTop], by decide⟩
  obtain ⟨hscan, hfind, -⟩ := sched_first_eligible_scan (fun _ => true) none 4 hat (by decide) (by decide) 5
  refine ⟨by decide, ?_⟩
  rw [hscan, Option.map_some, hfind]
  decide

end Spec

end Naos.Sched
