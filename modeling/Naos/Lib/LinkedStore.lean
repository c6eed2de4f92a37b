/-
Lists threaded through an index-addressed store.

Each cell of a store indexed by `ι` holds the index of the next cell and, for a doubly linked list, of the previous
one; a distinguished index `nil` ends a list. `Linked nxt nil h l` says that following `nxt` from `h` visits exactly
the cells of `l` and then reaches `nil`. `DSeg nxt prv nil p h l` says the same and that each cell's `prv` link names
the cell before it, the first cell's naming `p`.

The lemmas are those a free-list allocator needs: a walk of `l.length` steps from `h` returns `l`; a list does not
see writes to cells outside it; pushing a cell at the front; unlinking any cell of a doubly linked list.
-/
import Mathlib

namespace LinkedStore

variable {ι : Type*}

/-- following `nxt` from `h` visits the cells of the list, in order, and then reaches `nil` -/
inductive Linked (nxt : ι → ι) (nil : ι) : ι → List ι → Prop
  | nil : Linked nxt nil nil []
  | cons {x : ι} {xs : List ι} : x ≠ nil → Linked nxt nil (nxt x) xs → Linked nxt nil x (x :: xs)

/-- a doubly linked segment: `Linked` from `h`, and the `prv` link of each cell names its predecessor, `p` for the
first cell -/
inductive DSeg (nxt prv : ι → ι) (nil : ι) : ι → ι → List ι → Prop
  | nil {p : ι} : DSeg nxt prv nil p nil []
  | cons {p x : ι} {xs : List ι} :
      x ≠ nil → prv x = p → DSeg nxt prv nil x (nxt x) xs → DSeg nxt prv nil p x (x :: xs)

/-- the first `n` cells reached from `h`, stopping at `nil` -/
def walk [DecidableEq ι] (nxt : ι → ι) (nil : ι) (h : ι) : Nat → List ι
  | 0 => []
  | n + 1 => if h = nil then [] else h :: walk nxt nil (nxt h) n

variable {nxt prv nxt' prv' : ι → ι} {nil p h x : ι} {l : List ι}

/-! ## Singly linked lists -/

section Linked

theorem Linked.not_mem_nil (hl : Linked nxt nil h l) : nil ∉ l := by
  induction hl with
  | nil => simp
  | @cons y ys hy _ ih =>
    rw [List.mem_cons, not_or]
    exact ⟨Ne.symm hy, ih⟩

theorem Linked.eq_nil_iff (hl : Linked nxt nil h l) : l = [] ↔ h = nil := by
  cases hl with
  | nil => simp
  | cons hx _ => simpa using hx

theorem Linked.cons_inv {y : ι} {ys : List ι} (hl : Linked nxt nil h (y :: ys)) :
    h = y ∧ y ≠ nil ∧ Linked nxt nil (nxt y) ys := by
  cases hl with
  | cons hx hrest => exact ⟨rfl, hx, hrest⟩

/-- the links determine the list -/
theorem Linked.unique {l₂ : List ι} (h₁ : Linked nxt nil h l) (h₂ : Linked nxt nil h l₂) : l = l₂ := by
  induction h₁ generalizing l₂ with
  | nil =>
    cases h₂ with
    | nil => rfl
    | cons hx _ => exact absurd rfl hx
  | @cons y ys hy _ ih =>
    cases h₂ with
    | nil => exact absurd rfl hy
    | cons _ hrest => rw [ih hrest]

/-- from any listed cell the links lead through a strictly shorter tail -/
theorem Linked.from_mem {y : ι} (hl : Linked nxt nil h l) (hy : y ∈ l) :
    ∃ t, Linked nxt nil y (y :: t) ∧ t.length < l.length := by
  induction hl with
  | nil => simp at hy
  | @cons x xs hx hrest ih =>
    rcases List.mem_cons.mp hy with rfl | hy
    · exact ⟨xs, .cons hx hrest, by simp⟩
    · obtain ⟨t, ht, hlen⟩ := ih hy
      exact ⟨t, ht, by simp; omega⟩

/-- a linked list never visits a cell twice -/
theorem Linked.nodup (hl : Linked nxt nil h l) : l.Nodup := by
  induction hl with
  | nil => exact List.nodup_nil
  | @cons y ys hy hrest ih =>
    refine List.nodup_cons.mpr ⟨fun hmem => ?_, ih⟩
    obtain ⟨t, ht, hlen⟩ := hrest.from_mem hmem
    have heq : y :: ys = y :: t := (Linked.cons hy hrest).unique ht
    simp_all

theorem Linked.walk_eq [DecidableEq ι] (hl : Linked nxt nil h l) : walk nxt nil h l.length = l := by
  induction hl with
  | nil => rfl
  | cons hx _ ih => simp [walk, hx, ih]

/-- a list is unaffected by writes to cells outside it -/
theorem Linked.frame (hl : Linked nxt nil h l) (hagree : ∀ y ∈ l, nxt' y = nxt y) : Linked nxt' nil h l := by
  induction hl with
  | nil => exact .nil
  | @cons y ys hy _ ih =>
    refine .cons hy ?_
    rw [hagree y List.mem_cons_self]
    exact ih fun z hz => hagree z (List.mem_cons_of_mem _ hz)

theorem Linked.push (hl : Linked nxt nil h l) (hx : x ≠ nil) (hnx : nxt' x = h)
    (hagree : ∀ y ∈ l, nxt' y = nxt y) : Linked nxt' nil x (x :: l) :=
  .cons hx (hnx ▸ hl.frame hagree)

end Linked

/-! ## Doubly linked segments -/

section DSeg

theorem DSeg.linked (hs : DSeg nxt prv nil p h l) : Linked nxt nil h l := by
  induction hs with
  | nil => exact .nil
  | cons hx _ _ ih => exact .cons hx ih

theorem DSeg.head_mem (hs : DSeg nxt prv nil p h l) (hh : h ≠ nil) : h ∈ l := by
  cases hs with
  | nil => exact absurd rfl hh
  | cons => exact List.mem_cons_self

theorem DSeg.prv_head (hs : DSeg nxt prv nil p h l) (hh : h ≠ nil) : prv h = p := by
  cases hs with
  | nil => exact absurd rfl hh
  | cons _ hp _ => exact hp

/-- the successor of a listed cell is listed or is `nil` -/
theorem DSeg.nxt_mem (hs : DSeg nxt prv nil p h l) (hx : x ∈ l) : nxt x = nil ∨ nxt x ∈ l := by
  induction hs with
  | nil => simp at hx
  | @cons q y ys _ _ hrest ih =>
    rcases List.mem_cons.mp hx with rfl | hx
    · by_cases hn : nxt x = nil
      · exact .inl hn
      · exact .inr (List.mem_cons_of_mem _ (hrest.head_mem hn))
    · exact (ih hx).imp_right (List.mem_cons_of_mem _)

/-- the predecessor of a listed cell is listed or is the segment's outer predecessor `p` -/
theorem DSeg.prv_mem (hs : DSeg nxt prv nil p h l) (hx : x ∈ l) : prv x = p ∨ prv x ∈ l := by
  induction hs with
  | nil => simp at hx
  | @cons q y ys _ hp _ ih =>
    rcases List.mem_cons.mp hx with rfl | hx
    · exact .inl hp
    · rcases ih hx with h1 | h1
      · exact .inr (h1 ▸ List.mem_cons_self)
      · exact .inr (List.mem_cons_of_mem _ h1)

/-- a segment is unaffected by writes outside it, except that its first cell's `prv` may be re-aimed at a new outer
predecessor `p'` -/
theorem DSeg.frame {p' : ι} (hs : DSeg nxt prv nil p h l) (hn : ∀ y ∈ l, nxt' y = nxt y)
    (hp : ∀ y ∈ l, y ≠ h → prv' y = prv y) (hh : h ≠ nil → prv' h = p') : DSeg nxt' prv' nil p' h l := by
  induction hs generalizing p' with
  | nil => exact .nil
  | @cons q y ys hy _ hrest ih =>
    have hnd : y ∉ ys := (List.nodup_cons.mp (DSeg.linked (.cons hy ‹_› hrest)).nodup).1
    refine .cons hy (hh hy) ?_
    rw [hn y List.mem_cons_self]
    refine ih (fun z hz => hn z (List.mem_cons_of_mem _ hz)) ?_ ?_
    · intro z hz _
      exact hp z (List.mem_cons_of_mem _ hz) (fun hzy => hnd (hzy ▸ hz))
    · intro hne
      have hmem : nxt y ∈ ys := hrest.head_mem hne
      rw [hp _ (List.mem_cons_of_mem _ hmem) (fun he => hnd (he ▸ hmem))]
      exact hrest.prv_head hne

/-- a listed cell other than the first has its predecessor inside the segment -/
theorem DSeg.prv_mem_of_ne_head (hs : DSeg nxt prv nil p h l) (hx : x ∈ l) (hxh : x ≠ h) : prv x ∈ l := by
  induction hs with
  | nil => simp at hx
  | @cons q y ys _ _ hrest ih =>
    have hxs : x ∈ ys := (List.mem_cons.mp hx).resolve_left hxh
    by_cases hxn : x = nxt y
    · subst hxn
      rw [hrest.prv_head (hrest.linked.not_mem_nil <| · ▸ hxs)]
      exact List.mem_cons_self
    · exact List.mem_cons_of_mem _ (ih hxs hxn)

/-- the successor of a listed cell points back at it -/
theorem DSeg.prv_nxt (hs : DSeg nxt prv nil p h l) (hx : x ∈ l) (hn : nxt x ≠ nil) : prv (nxt x) = x := by
  induction hs with
  | nil => simp at hx
  | @cons q y ys _ _ hrest ih =>
    rcases List.mem_cons.mp hx with rfl | hxs
    · exact hrest.prv_head hn
    · exact ih hxs

/-- no cell is its own predecessor -/
theorem DSeg.prv_ne_self (hs : DSeg nxt prv nil p h l) (hpl : p ∉ l) (hx : x ∈ l) : prv x ≠ x := by
  induction hs with
  | nil => simp at hx
  | @cons q y ys hy hqy hrest ih =>
    have hnd : y ∉ ys := (List.nodup_cons.mp (DSeg.linked (.cons hy hqy hrest)).nodup).1
    rcases List.mem_cons.mp hx with rfl | hxs
    · rw [hqy]
      exact fun he => hpl (he ▸ List.mem_cons_self)
    · exact ih hnd hxs

/-- in a whole list (outer predecessor `nil`) exactly the first cell has no predecessor -/
theorem DSeg.prv_eq_nil_iff (hs : DSeg nxt prv nil nil h l) (hx : x ∈ l) : prv x = nil ↔ x = h := by
  constructor
  · intro hprv
    by_contra hxh
    exact hs.linked.not_mem_nil (hprv ▸ hs.prv_mem_of_ne_head hx hxh)
  · rintro rfl
    exact hs.prv_head (fun he => hs.linked.not_mem_nil (he ▸ hx))

/-- pushing a cell at the front: the new cell points at the old head, which points back at it -/
theorem DSeg.push {p' : ι} (hs : DSeg nxt prv nil p h l) (hx : x ≠ nil) (hnx : nxt' x = h) (hpx : prv' x = p')
    (hh : h ≠ nil → prv' h = x) (hn : ∀ y ∈ l, nxt' y = nxt y) (hp : ∀ y ∈ l, y ≠ h → prv' y = prv y) :
    DSeg nxt' prv' nil p' x (x :: l) :=
  .cons hx hpx (hnx ▸ hs.frame hn hp hh)

/-- unlinking a cell `x`: its predecessor (if inside the segment) takes over its `nxt`, its successor (if any) its
`prv`; the segment then starts at `nxt x` when `x` was first -/
theorem DSeg.erase [DecidableEq ι] (hs : DSeg nxt prv nil p h l) (hpl : p ∉ l) (hx : x ∈ l)
    (hA : x ≠ h → nxt' (prv x) = nxt x) (hB : nxt x ≠ nil → prv' (nxt x) = prv x)
    (hC : ∀ y ∈ l, y ≠ x → y ≠ prv x → nxt' y = nxt y) (hD : ∀ y ∈ l, y ≠ x → y ≠ nxt x → prv' y = prv y) :
    DSeg nxt' prv' nil p (if x = h then nxt x else h) (l.erase x) := by
  induction hs with
  | nil => simp at hx
  | @cons q y ys hy hqy hrest ih =>
    have hnd : y ∉ ys := (List.nodup_cons.mp (DSeg.linked (.cons hy hqy hrest)).nodup).1
    have hqys : q ∉ ys := fun h' => hpl (List.mem_cons_of_mem _ h')
    by_cases hxy : x = y
    · subst hxy
      rw [if_pos rfl, List.erase_cons_head]
      refine hrest.frame (fun z hz => hC z (List.mem_cons_of_mem _ hz) (fun he => hnd (he ▸ hz)) ?_)
        (fun z hz hzn => hD z (List.mem_cons_of_mem _ hz) (fun he => hnd (he ▸ hz)) hzn)
        (fun hne => hqy ▸ hB hne)
      rw [hqy]
      exact fun he => hqys (he ▸ hz)
    · have hxs : x ∈ ys := (List.mem_cons.mp hx).resolve_left hxy
      rw [if_neg hxy, List.erase_cons_tail (fun he => hxy (beq_iff_eq.mp he).symm)]
      have hyn : y ≠ nxt x := by
        intro he
        have hne : nxt x ≠ nil := he ▸ hy
        have hback : prv (nxt x) = x := hrest.prv_nxt hxs hne
        have hqx : q = x := by rw [← hqy, he, hback]
        exact hpl (hqx ▸ List.mem_cons_of_mem _ hxs)
      refine .cons hy ((hD y List.mem_cons_self (Ne.symm hxy) hyn).trans hqy) ?_
      have hih := ih hnd hxs (fun _ => hA hxy)
        (fun z hz hzx hzp => hC z (List.mem_cons_of_mem _ hz) hzx hzp)
        (fun z hz hzx hzn => hD z (List.mem_cons_of_mem _ hz) hzx hzn)
      by_cases hxn : x = nxt y
      · rw [if_pos hxn] at hih
        have hne : nxt y ≠ nil := fun he => hrest.linked.not_mem_nil (he ▸ hxn ▸ hxs)
        have hpx : prv x = y := by rw [hxn]; exact hrest.prv_head hne
        rwa [show nxt' y = nxt x from hpx ▸ hA hxy]
      · rw [if_neg hxn] at hih
        have hpy : y ≠ prv x := fun he => hnd (he ▸ hrest.prv_mem_of_ne_head hxs hxn)
        rwa [hC y List.mem_cons_self (Ne.symm hxy) hpy]

end DSeg

end LinkedStore
