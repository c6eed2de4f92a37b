/-
vma_try_merge_around, and the walks of the manager against what it stands for.

vma_try_merge_around merges the VMA `*vma_ptr` points at with the VMA before it, when they touch, and goes on from the
merged VMA; else with the VMA after it, and goes on; and stops when neither merge goes through. `Settled fuel mgr T x`
says what holds when it stops: vma_merge of `x` with the VMA before it, or with the VMA after it, in the order of the
tree, fails and changes nothing.

Results:
- `mergeIf_spec`: a merge the adjacency test guards either joins two VMAs of the tree or leaves the manager alone;
- `vmaTryMergeAroundLoop_prev`, `vmaTryMergeAroundLoop_next`, `vmaTryMergeAroundLoop_done`: the three ways a pass of
  the loop ends;
- `vmaTryMergeAroundLoop_shrinks`, `vmaTryMergeAroundLoop_spec`: with loop fuel above the number of VMAs the loop
  returns, keeps the invariant and the view of every address, leaves its VMA settled, and leaves no more VMAs;
- `vma_walks_merge_around`: vma_find, vma_find_intersection, vma_prev, vma_next and vma_try_merge_around on a
  manager that keeps the invariant.
-/
import Naos.Mm.VmaSpec

namespace Naos.Vmas

open RedBlack RBTree Naos.RbTree VmaManager

/-- vma_merge of `x` with the VMA before it, and of `x` with the VMA after it, in the order of the tree fails and
leaves the manager as it is -/
def Settled (fuel : Nat) (mgr : VmaManager) (T : RBTree Nat) (x : Nat) : Prop :=
  ∀ A B, T.ids = A ++ x :: B → (∀ p, A.getLast? = some p → vmaMerge fuel mgr p x = some (-1, mgr)) ∧
    ∀ n, B.head? = some n → vmaMerge fuel mgr x n = some (-1, mgr)

section MergeAround

variable {fuel n : Nat} {mgr mgr' : VmaManager} {T : RBTree Nat} {x p q : Nat}

/-- the merge vma_try_merge_around tries, guarded by the test that the two VMAs touch: it joins them, or vma_merge
of the two fails and the manager stays as it is -/
theorem mergeIf_spec (fuel : Nat) {v1 v2 : Nat} (hok : VmaOk mgr T) (h1 : v1 ∈ T.ids) (h2 : v2 ∈ T.ids)
    (hfuel : 2 * T.ids.length < fuel) :
    (∃ mgr' T', mergeIf fuel mgr (decide ((mgr.vmas v1).vmEnd = (mgr.vmas v2).vmStart)) v1 v2 = some (true, mgr') ∧
      VmaOk mgr' T' ∧ T'.ids.Perm (T.ids.erase v2) ∧ ∀ a, addrView mgr' T' a = addrView mgr T a) ∨
    (mergeIf fuel mgr (decide ((mgr.vmas v1).vmEnd = (mgr.vmas v2).vmStart)) v1 v2 = some (false, mgr) ∧
      vmaMerge fuel mgr v1 v2 = some (-1, mgr)) := by
  by_cases hm : vmaMergeable (mgr.vmas v1) (mgr.vmas v2) = true
  · have hm' := (vmaMergeable_iff).1 hm
    obtain ⟨mgr', T', hmerge, hok', hids', -, hview'⟩ := vmaMerge_spec fuel hok h1 h2 hm' hfuel
    refine .inl ⟨mgr', T', ?_, hok', hids', hview'⟩
    simp [mergeIf, hm'.adjacent, hmerge]
  · have hfail := vmaMerge_of_not_mergeable fuel (by simpa using hm)
    refine .inr ⟨?_, hfail⟩
    by_cases hadj : (mgr.vmas v1).vmEnd = (mgr.vmas v2).vmStart
    · simp [mergeIf, hadj, hfail]
    · simp [mergeIf, hadj]

/-- a pass of the loop that merges the VMA before: the loop goes on from it -/
theorem vmaTryMergeAroundLoop_prev (hprev : vmaPrev fuel mgr x = some (some p))
    (hm : mergeIf fuel mgr (decide ((mgr.vmas p).vmEnd = (mgr.vmas x).vmStart)) p x = some (true, mgr')) :
    vmaTryMergeAroundLoop fuel mgr x (n + 1) = vmaTryMergeAroundLoop fuel mgr' p n := by
  simp [vmaTryMergeAroundLoop_succ, hprev, hm]

/-- a pass of the loop where the VMA before stays and the VMA after merges: the loop goes on from the same VMA -/
theorem vmaTryMergeAroundLoop_next {prev : Option Nat} (hprev : vmaPrev fuel mgr x = some prev)
    (hstay : ∀ p, prev = some p →
      mergeIf fuel mgr (decide ((mgr.vmas p).vmEnd = (mgr.vmas x).vmStart)) p x = some (false, mgr))
    (hnext : vmaNext fuel mgr x = some (some q))
    (hm : mergeIf fuel mgr (decide ((mgr.vmas x).vmEnd = (mgr.vmas q).vmStart)) x q = some (true, mgr')) :
    vmaTryMergeAroundLoop fuel mgr x (n + 1) = vmaTryMergeAroundLoop fuel mgr' x n := by
  cases prev with
  | none => simp [vmaTryMergeAroundLoop_succ, hprev, hnext, hm]
  | some p => simp [vmaTryMergeAroundLoop_succ, hprev, hstay p rfl, hnext, hm]

/-- a pass of the loop where neither neighbour merges: the loop stops -/
theorem vmaTryMergeAroundLoop_done {prev next : Option Nat} (hprev : vmaPrev fuel mgr x = some prev)
    (hstay : ∀ p, prev = some p →
      mergeIf fuel mgr (decide ((mgr.vmas p).vmEnd = (mgr.vmas x).vmStart)) p x = some (false, mgr))
    (hnext : vmaNext fuel mgr x = some next)
    (hstay' : ∀ q, next = some q →
      mergeIf fuel mgr (decide ((mgr.vmas x).vmEnd = (mgr.vmas q).vmStart)) x q = some (false, mgr)) :
    vmaTryMergeAroundLoop fuel mgr x (n + 1) = some (mgr, x) := by
  cases prev with
  | none =>
    cases next with
    | none => simp [vmaTryMergeAroundLoop_succ, hprev, hnext]
    | some q => simp [vmaTryMergeAroundLoop_succ, hprev, hnext, hstay' q rfl]
  | some p =>
    cases next with
    | none => simp [vmaTryMergeAroundLoop_succ, hprev, hstay p rfl, hnext]
    | some q => simp [vmaTryMergeAroundLoop_succ, hprev, hstay p rfl, hnext, hstay' q rfl]

/-- a merge drops one VMA of the tree, and the one kept is still there -/
theorem merge_keeps {T' : RBTree Nat} {y z : Nat} (hy : y ∈ T.ids) (hz : z ∈ T.ids) (hyz : y ≠ z)
    (hids : T'.ids.Perm (T.ids.erase z)) : y ∈ T'.ids ∧ T'.ids.length + 1 = T.ids.length := by
  refine ⟨hids.mem_iff.2 ((List.mem_erase_of_ne hyz).2 hy), ?_⟩
  rw [hids.length_eq, List.length_erase_of_mem hz]
  have := List.length_pos_of_mem hz
  omega

/-- vma_try_merge_around's loop, with loop fuel above the number of VMAs: it returns, keeps the invariant and the view
of every address, stops at a VMA of the tree that is settled, and leaves no more VMAs than there were. The induction
is on the loop fuel; each merge takes a VMA out of the tree, so the fuel stays above the number of VMAs. -/
theorem vmaTryMergeAroundLoop_shrinks (fuel loopFuel : Nat) (hok : VmaOk mgr T) (hx : x ∈ T.ids)
    (hfuel : 2 * T.ids.length < fuel) (hloop : T.ids.length < loopFuel) :
    ∃ mgr' T' x', vmaTryMergeAroundLoop fuel mgr x loopFuel = some (mgr', x') ∧ VmaOk mgr' T' ∧ x' ∈ T'.ids ∧
      (∀ a, addrView mgr' T' a = addrView mgr T a) ∧ Settled fuel mgr' T' x' ∧ T'.ids.length ≤ T.ids.length := by
  induction loopFuel generalizing mgr T x with
  | zero => omega
  | succ n ih =>
    obtain ⟨A, B, hAB⟩ := List.append_of_mem hx
    obtain ⟨hprev, hnext⟩ := vmaPrev_vmaNext_eq hok.tree (show T.ids.length ≤ fuel by omega) hAB
    have hnd : T.ids.Nodup := hok.tree.linked.nodup_tree
    have hxA : x ∉ A := fun h => ((List.nodup_append.1 (hAB ▸ hnd)).2.2 x h x (List.mem_cons_self ..)) rfl
    have hxB : x ∉ B := (List.nodup_cons.1 (List.nodup_append.1 (hAB ▸ hnd)).2.1).1
    have hgo : ∀ m' T' y, VmaOk m' T' → y ∈ T'.ids → T'.ids.length + 1 = T.ids.length →
        (∀ a, addrView m' T' a = addrView mgr T a) →
        ∃ mgr' T'' x', vmaTryMergeAroundLoop fuel m' y n = some (mgr', x') ∧ VmaOk mgr' T'' ∧ x' ∈ T''.ids ∧
          (∀ a, addrView mgr' T'' a = addrView mgr T a) ∧ Settled fuel mgr' T'' x' ∧
          T''.ids.length ≤ T.ids.length := by
      intro m' T' y hok' hy hlen hview
      obtain ⟨mgr', T'', x', hrun, hok'', hx', hview'', hset, hlen''⟩ := ih hok' hy (by omega) (by omega)
      exact ⟨mgr', T'', x', hrun, hok'', hx', fun a => (hview'' a).trans (hview a), hset, by omega⟩
    obtain ⟨p, m', T', hp, hm, hok', hids', hview'⟩ | hstay :
        (∃ p m' T', A.getLast? = some p ∧
          mergeIf fuel mgr (decide ((mgr.vmas p).vmEnd = (mgr.vmas x).vmStart)) p x = some (true, m') ∧
          VmaOk m' T' ∧ T'.ids.Perm (T.ids.erase x) ∧ ∀ a, addrView m' T' a = addrView mgr T a) ∨
        ∀ p, A.getLast? = some p →
          mergeIf fuel mgr (decide ((mgr.vmas p).vmEnd = (mgr.vmas x).vmStart)) p x = some (false, mgr) ∧
          vmaMerge fuel mgr p x = some (-1, mgr) := by
      cases hp : A.getLast? with
      | none => exact .inr fun _ h => by cases h
      | some p =>
        have hpT : p ∈ T.ids := hAB ▸ List.mem_append_left _ (List.mem_of_getLast? hp)
        rcases mergeIf_spec fuel hok hpT hx hfuel with ⟨m', T', h⟩ | h
        · exact .inl ⟨p, m', T', rfl, h⟩
        · exact .inr fun _ hq => Option.some.inj hq ▸ h
    · have hpx : p ≠ x := fun h => hxA (h ▸ List.mem_of_getLast? hp)
      have hpT : p ∈ T.ids := hAB ▸ List.mem_append_left _ (List.mem_of_getLast? hp)
      obtain ⟨hpT', hlen⟩ := merge_keeps hpT hx hpx hids'
      rw [vmaTryMergeAroundLoop_prev (hp ▸ hprev) hm]
      exact hgo m' T' p hok' hpT' hlen hview'
    obtain ⟨q, m', T', hq, hm, hok', hids', hview'⟩ | hstay' :
        (∃ q m' T', B.head? = some q ∧
          mergeIf fuel mgr (decide ((mgr.vmas x).vmEnd = (mgr.vmas q).vmStart)) x q = some (true, m') ∧
          VmaOk m' T' ∧ T'.ids.Perm (T.ids.erase q) ∧ ∀ a, addrView m' T' a = addrView mgr T a) ∨
        ∀ q, B.head? = some q →
          mergeIf fuel mgr (decide ((mgr.vmas x).vmEnd = (mgr.vmas q).vmStart)) x q = some (false, mgr) ∧
          vmaMerge fuel mgr x q = some (-1, mgr) := by
      cases hq : B.head? with
      | none => exact .inr fun _ h => by cases h
      | some q =>
        have hqT : q ∈ T.ids := hAB ▸ List.mem_append_right _ (List.mem_cons_of_mem _ (List.mem_of_mem_head? hq))
        rcases mergeIf_spec fuel hok hx hqT hfuel with ⟨m', T', h⟩ | h
        · exact .inl ⟨q, m', T', rfl, h⟩
        · exact .inr fun _ hq' => Option.some.inj hq' ▸ h
    · have hqx : x ≠ q := fun h => hxB (h ▸ List.mem_of_mem_head? hq)
      have hqT : q ∈ T.ids := hAB ▸ List.mem_append_right _ (List.mem_cons_of_mem _ (List.mem_of_mem_head? hq))
      obtain ⟨hxT', hlen⟩ := merge_keeps hx hqT hqx hids'
      rw [vmaTryMergeAroundLoop_next hprev (fun p hp => (hstay p hp).1) (hq ▸ hnext) hm]
      exact hgo m' T' x hok' hxT' hlen hview'
    rw [vmaTryMergeAroundLoop_done hprev (fun p hp => (hstay p hp).1) hnext (fun q hq => (hstay' q hq).1)]
    refine ⟨mgr, T, x, rfl, hok, hx, fun _ => rfl, fun A' B' hAB' => ?_, le_rfl⟩
    obtain ⟨hprev', hnext'⟩ := vmaPrev_vmaNext_eq hok.tree (show T.ids.length ≤ fuel by omega) hAB'
    have hA : A'.getLast? = A.getLast? := Option.some.inj (hprev'.symm.trans hprev)
    have hB : B'.head? = B.head? := Option.some.inj (hnext'.symm.trans hnext)
    exact ⟨fun p hp => (hstay p (hA ▸ hp)).2, fun q hq => (hstay' q (hB ▸ hq)).2⟩

/-- vma_try_merge_around's loop, with loop fuel above the number of VMAs: it returns, keeps the invariant and the view
of every address, and stops at a VMA of the tree that is settled -/
theorem vmaTryMergeAroundLoop_spec (fuel loopFuel : Nat) (hok : VmaOk mgr T) (hx : x ∈ T.ids)
    (hfuel : 2 * T.ids.length < fuel) (hloop : T.ids.length < loopFuel) :
    ∃ mgr' T' x', vmaTryMergeAroundLoop fuel mgr x loopFuel = some (mgr', x') ∧ VmaOk mgr' T' ∧ x' ∈ T'.ids ∧
      (∀ a, addrView mgr' T' a = addrView mgr T a) ∧ Settled fuel mgr' T' x' := by
  obtain ⟨mgr', T', x', hrun, hok', hx', hview, hset, -⟩ :=
    vmaTryMergeAroundLoop_shrinks fuel loopFuel hok hx hfuel hloop
  exact ⟨mgr', T', x', hrun, hok', hx', hview, hset⟩

end MergeAround

/-! ## The walks and the merge loop on a manager that keeps the invariant -/

section Walks

variable {mgr : VmaManager} {T : RBTree Nat}

/-- on a manager that keeps the invariant: vma_find gives the VMA that holds the address, and none when no VMA
does; vma_find_intersection, on a nonempty range, gives a VMA that meets it, and none exactly when no VMA does;
vma_prev and vma_next give the VMAs before and after in the order of the tree; and vma_try_merge_around returns,
keeps the invariant and the view of every address, and leaves the VMA it gives settled -/
theorem vma_walks_merge_around (fuel : Nat) (hok : VmaOk mgr T) (hfuel : 2 * T.ids.length < fuel) :
    (∀ addr, ∃ r, vmaFind fuel mgr addr = some r ∧
      ∀ x, r = some x ↔ x ∈ T.ids ∧ (mgr.vmas x).vmStart ≤ addr ∧ addr < (mgr.vmas x).vmEnd) ∧
    (∀ start «end», start < «end» → ∃ r, vmaFindIntersection fuel mgr start «end» = some r ∧
      (∀ x, r = some x → x ∈ T.ids ∧
        ∃ a, start ≤ a ∧ a < «end» ∧ (mgr.vmas x).vmStart ≤ a ∧ a < (mgr.vmas x).vmEnd) ∧
      (r = none ↔ ∀ x ∈ T.ids,
        ¬∃ a, start ≤ a ∧ a < «end» ∧ (mgr.vmas x).vmStart ≤ a ∧ a < (mgr.vmas x).vmEnd)) ∧
    (∀ A x B, T.ids = A ++ x :: B → vmaPrev fuel mgr x = some A.getLast? ∧ vmaNext fuel mgr x = some B.head?) ∧
    ∀ x, x ∈ T.ids → ∃ mgr' T' x', vmaTryMergeAround fuel mgr x = some (mgr', x') ∧ VmaOk mgr' T' ∧
      x' ∈ T'.ids ∧ (∀ a, addrView mgr' T' a = addrView mgr T a) ∧ Settled fuel mgr' T' x' := by
  have hfuel' : T.ids.length ≤ fuel := by omega
  have hmeet : ∀ start «end» (v : Vma), start < «end» → v.vmStart < v.vmEnd →
      ((v.vmStart < «end» ∧ start < v.vmEnd) ↔ ∃ a, start ≤ a ∧ a < «end» ∧ v.vmStart ≤ a ∧ a < v.vmEnd) := by
    intro start «end» v hse hv
    constructor
    · rintro ⟨h1, h2⟩
      exact ⟨max start v.vmStart, le_max_left .., by omega, le_max_right .., by omega⟩
    · rintro ⟨a, h1, h2, h3, h4⟩
      omega
  refine ⟨fun addr => ⟨_, vmaFind_eq hok.tree hfuel' addr, fun x => ?_⟩, fun start «end» hse => ?_,
    fun A x B hAB => vmaPrev_vmaNext_eq hok.tree hfuel' hAB,
    fun x hx => vmaTryMergeAroundLoop_spec fuel fuel hok hx hfuel (by omega)⟩
  · constructor
    · intro h
      have hfind := List.find?_some h
      simp only [decide_eq_true_eq] at hfind
      exact ⟨List.mem_of_find?_eq_some h, hfind⟩
    · rintro ⟨hx, hholds⟩
      have huniq : ∀ y ∈ T.ids, (mgr.vmas y).vmStart ≤ addr ∧ addr < (mgr.vmas y).vmEnd → y = x :=
        fun y hy hyh => Intervals.eq_of_holds hok.tree.apart hy hx hyh hholds
      cases hfind : T.ids.find? (fun y => decide ((mgr.vmas y).vmStart ≤ addr ∧ addr < (mgr.vmas y).vmEnd)) with
      | none => exact absurd (List.find?_eq_none.1 hfind x hx) (by simpa using hholds)
      | some y =>
        have hy := List.find?_some hfind
        simp only [decide_eq_true_eq] at hy
        rw [huniq y (List.mem_of_find?_eq_some hfind) hy]
  · obtain ⟨r, hr, hnone, hsome⟩ := vmaFindIntersection_spec hok.tree hfuel' start «end»
    refine ⟨r, hr, fun x hx => ?_, ?_⟩
    · obtain ⟨hxT, hlt⟩ := hsome x hx
      exact ⟨hxT, (hmeet start «end» _ hse (hok.tree.nonempty x hxT)).1 hlt⟩
    · rw [hnone]
      exact forall₂_congr fun x hx => not_congr (hmeet start «end» _ hse (hok.tree.nonempty x hx))

/-- vma_try_merge_around on the one VMA of `oneVma` -/
theorem vma_walks_merge_around_oneVma :
    ∃ mgr' T' x', vmaTryMergeAround 3 oneVma 1 = some (mgr', x') ∧ VmaOk mgr' T' ∧ x' ∈ T'.ids ∧
      Settled 3 mgr' T' x' := by
  obtain ⟨mgr', T', x', hrun, hok', hx', -, hset⟩ := (vma_walks_merge_around 3 oneVma_ok (by decide)).2.2.2 1
    (by decide)
  exact ⟨mgr', T', x', hrun, hok', hx', hset⟩

/-- vma_find_intersection on the empty range `[5, 5)` gives the VMA `[3, 7)`: its comparisons see `3 < 5` and
`5 < 7`, though no address lies in the range -/
theorem vmaFindIntersection_empty_range :
    VmaOk oneVma (.node .leaf .black 1 .leaf) ∧ vmaFindIntersection 3 oneVma 5 5 = some (some 1) ∧
      ¬∃ a : Nat, 5 ≤ a ∧ a < 5 :=
  ⟨oneVma_ok, by decide, by omega⟩

end Walks

end Naos.Vmas
