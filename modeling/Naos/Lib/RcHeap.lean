/-
Reference-counted objects on a heap, and counts that match their owners.

A heap maps each address to an object with its reference count, or to nothing. `get` takes one more reference,
`put` drops one and frees the object when the count reaches 0, `alloc` places a new object with count 1 and `modify`
rewrites an object in place. A finite set of owners points into the heap through `ptr`; `refs owners ptr a` of them
point at `a`. The counts are `Exact` when every address records exactly that many references and every object on the
heap has a positive count, so that an address no owner points at holds nothing.

Results:
- `countAt_alloc`, `countAt_get`, `countAt_put`, `countAt_modify` and the `objAt` lemmas: what each operation does to
  the counts and objects, at its own address and elsewhere;
- `put_alloc`, `put_get`, `modify_alloc`, `copy_alloc`: operations that undo or absorb one another;
- `pos_alloc`, `pos_get`, `pos_put`, `pos_modify`: every operation keeps the counts on the heap positive;
- `Exact.alloc_insert`, `Exact.get_insert`, `Exact.repoint`, `Exact.modify_at`: the counts stay exact for a new owner
  of a fresh object, a new owner of a held one, an owner that moves to a fresh object, and an object rewritten;
- `Exact.objAt_isSome`, `Exact.ptr_ne_of_none`: an owner's object is on the heap, and a free address is no owner's.
-/
import Mathlib

namespace Naos.Refcount

/-- an object and its reference count -/
structure Rc (α : Type*) where
  count : Int
  obj : α

/-- a heap of reference-counted objects -/
abbrev RcHeap (α : Type*) := Nat → Option (Rc α)

section Ops

variable {α : Type*} (h : RcHeap α)

/-- a new object at `a`, with one reference -/
def alloc (a : Nat) (x : α) : RcHeap α := Function.update h a (some ⟨1, x⟩)

/-- one more reference to the object at `a` -/
def get (a : Nat) : RcHeap α :=
  match h a with
  | some o => Function.update h a (some { o with count := o.count + 1 })
  | none => h

/-- one reference less to the object at `a`, which is freed when none is left -/
def put (a : Nat) : RcHeap α :=
  match h a with
  | some o => Function.update h a (if o.count - 1 = 0 then none else some { o with count := o.count - 1 })
  | none => h

/-- rewrite the object at `a`, keeping its count -/
def modify (a : Nat) (f : α → α) : RcHeap α :=
  match h a with
  | some o => Function.update h a (some { o with obj := f o.obj })
  | none => h

/-- an allocation that gives the address `addr`, or fails -/
def tryAlloc (addr : Option Nat) (x : α) : Option (Nat × RcHeap α) := addr.map fun a => (a, alloc h a x)

/-- the object at `src` copied over the one at `dst`, whose count stays -/
def copy (dst src : Nat) : RcHeap α :=
  match h src with
  | some o => modify h dst fun _ => o.obj
  | none => h

/-- the references recorded at `a` -/
def countAt (a : Nat) : Int :=
  match h a with
  | some o => o.count
  | none => 0

/-- the object at `a` -/
def objAt (a : Nat) : Option α := (h a).map Rc.obj

end Ops

section Lemmas

variable {α : Type*} {h : RcHeap α} {a b : Nat} {x : α}

@[simp] theorem countAt_alloc : countAt (alloc h a x) b = if b = a then 1 else countAt h b := by
  by_cases hb : b = a
  · subst hb
    simp [alloc, countAt]
  · simp [alloc, countAt, hb]

theorem countAt_get : countAt (get h a) b = countAt h b + if b = a ∧ (h a).isSome then 1 else 0 := by
  unfold get
  split
  · next o ha =>
    by_cases hb : b = a
    · subst hb
      simp [countAt, ha]
    · simp [countAt, hb]
  · next ha => simp [ha]

theorem countAt_put : countAt (put h a) b = countAt h b - if b = a ∧ (h a).isSome then 1 else 0 := by
  unfold put
  split
  · next o ha =>
    by_cases hb : b = a
    · subst hb
      by_cases h0 : o.count - 1 = 0
      · simp [countAt, ha, h0]
      · simp [countAt, ha, h0]
    · simp [countAt, hb]
  · next ha => simp [ha]

@[simp] theorem countAt_modify {f : α → α} : countAt (modify h a f) b = countAt h b := by
  unfold modify
  split
  · next o ha =>
    by_cases hb : b = a
    · subst hb
      simp [countAt, ha]
    · simp [countAt, Function.update_of_ne hb]
  · rfl

@[simp] theorem objAt_alloc : objAt (alloc h a x) b = if b = a then some x else objAt h b := by
  by_cases hb : b = a
  · subst hb
    simp [alloc, objAt]
  · simp [alloc, objAt, hb]

/-- a reference dropped right after the object was placed frees it -/
theorem put_alloc (ha : h a = none) : put (alloc h a x) a = h := by
  funext b
  by_cases hb : b = a
  · subst hb
    simp [put, alloc, ha]
  · simp [put, alloc, Function.update_of_ne hb]

/-- one reference taken and dropped leaves an object with references as it was -/
theorem put_get (hc : countAt h a ≠ 0) : put (get h a) a = h := by
  rcases ha : h a with _ | o
  · simp [countAt, ha] at hc
  · have h0 : o.count ≠ 0 := by simpa [countAt, ha] using hc
    funext b
    by_cases hb : b = a
    · subst hb
      simp [put, get, ha, h0]
    · simp [put, get, ha, Function.update_of_ne hb, h0]

/-- a rewrite right after the object was placed is the placement of the rewritten object -/
theorem modify_alloc {f : α → α} : modify (alloc h a x) a f = alloc h a (f x) := by
  funext b
  by_cases hb : b = a
  · subst hb
    simp [modify, alloc]
  · simp [modify, alloc, Function.update_of_ne hb]

/-- an object copied right after a new one was placed elsewhere: the new one is the copy -/
theorem copy_alloc {src : Nat} {o : Rc α} (hsrc : h src = some o) (hne : src ≠ a) :
    copy (alloc h a x) a src = alloc h a o.obj := by
  have hsrc' : alloc h a x src = some o := by rw [alloc, Function.update_of_ne hne, hsrc]
  simp only [copy, hsrc', modify_alloc]

end Lemmas

/-! ## Owners -/

section Owners

variable {ι α : Type*}

/-- the owners that point at `a` -/
def refs (owners : Finset ι) (ptr : ι → Nat) (a : Nat) : Nat := (owners.filter fun i => ptr i = a).card

variable {owners : Finset ι} {ptr : ι → Nat} {n : ι} {a b : Nat}

/-- a new owner pointing at `a` -/
theorem refs_insert [DecidableEq ι] (hn : n ∉ owners) :
    refs (insert n owners) (Function.update ptr n a) b = refs owners ptr b + if a = b then 1 else 0 := by
  have hfilter : ∀ i ∈ owners, (Function.update ptr n a i = b ↔ ptr i = b) := fun i hi => by
    rw [Function.update_of_ne (ne_of_mem_of_not_mem hi hn)]
  unfold refs
  rw [Finset.filter_insert, Function.update_self, Finset.filter_congr hfilter]
  split_ifs with hab
  · rw [Finset.card_insert_of_notMem (fun h => hn (Finset.mem_filter.1 h).1)]
  · rfl

/-- an owner that moves from where it pointed to `a` -/
theorem refs_update [DecidableEq ι] (hn : n ∈ owners) :
    (refs owners (Function.update ptr n a) b : Int) =
      refs owners ptr b - (if ptr n = b then 1 else 0) + if a = b then 1 else 0 := by
  have herase : n ∉ owners.erase n := Finset.notMem_erase n owners
  have hins : insert n (owners.erase n) = owners := Finset.insert_erase hn
  have hold : refs (insert n (owners.erase n)) (Function.update ptr n (ptr n)) b =
      refs (owners.erase n) ptr b + if ptr n = b then 1 else 0 := refs_insert herase
  have hnew : refs (insert n (owners.erase n)) (Function.update ptr n a) b =
      refs (owners.erase n) ptr b + if a = b then 1 else 0 := refs_insert herase
  rw [Function.update_eq_self, hins] at hold
  rw [hins] at hnew
  push_cast [hold, hnew]
  split_ifs <;> omega

/-- every object on the heap has references -/
def Pos (h : RcHeap α) : Prop := ∀ a o, h a = some o → 0 < o.count

section Pos

variable {h : RcHeap α} {x : α}

theorem pos_alloc (hp : Pos h) : Pos (alloc h a x) := by
  intro b o hb
  by_cases hba : b = a
  · subst hba
    simp only [alloc, Function.update_self, Option.some.injEq] at hb
    rw [← hb]
    exact Int.one_pos
  · rw [alloc, Function.update_of_ne hba] at hb
    exact hp b o hb

theorem pos_get (hp : Pos h) : Pos (get h a) := by
  intro b o hb
  unfold get at hb
  rcases ha : h a with _ | o'
  · simp only [ha] at hb
    exact hp b o hb
  · simp only [ha] at hb
    by_cases hba : b = a
    · subst hba
      simp only [Function.update_self, Option.some.injEq] at hb
      rw [← hb]
      have := hp b o' ha
      dsimp only
      omega
    · rw [Function.update_of_ne hba] at hb
      exact hp b o hb

theorem pos_put (hp : Pos h) : Pos (put h a) := by
  intro b o hb
  unfold put at hb
  rcases ha : h a with _ | o'
  · simp only [ha] at hb
    exact hp b o hb
  · simp only [ha] at hb
    by_cases hba : b = a
    · subst hba
      rw [Function.update_self] at hb
      split_ifs at hb with h0
      simp only [Option.some.injEq] at hb
      rw [← hb]
      have := hp b o' ha
      dsimp only
      omega
    · rw [Function.update_of_ne hba] at hb
      exact hp b o hb

theorem pos_modify {f : α → α} (hp : Pos h) : Pos (modify h a f) := by
  intro b o hb
  unfold modify at hb
  rcases ha : h a with _ | o'
  · simp only [ha] at hb
    exact hp b o hb
  · simp only [ha] at hb
    by_cases hba : b = a
    · subst hba
      simp only [Function.update_self, Option.some.injEq] at hb
      rw [← hb]
      exact hp b o' ha
    · rw [Function.update_of_ne hba] at hb
      exact hp b o hb

end Pos

/-- the counts match the owners, and every object on the heap has references -/
structure Exact (h : RcHeap α) (owners : Finset ι) (ptr : ι → Nat) : Prop where
  count_eq : ∀ a, countAt h a = refs owners ptr a
  pos : Pos h

variable {h : RcHeap α} {x : α}

theorem Exact.countAt_pos (hE : Exact h owners ptr) (hn : n ∈ owners) : 0 < countAt h (ptr n) := by
  have hrefs : 0 < refs owners ptr (ptr n) := Finset.card_pos.2 ⟨n, Finset.mem_filter.2 ⟨hn, rfl⟩⟩
  rw [hE.count_eq]
  exact_mod_cast hrefs

/-- an owner's object is on the heap: none is freed while an owner points at it -/
theorem Exact.objAt_isSome (hE : Exact h owners ptr) (hn : n ∈ owners) : (h (ptr n)).isSome := by
  have hpos := hE.countAt_pos hn
  unfold countAt at hpos
  split at hpos <;> simp_all

/-- a free address is no owner's -/
theorem Exact.ptr_ne_of_none (hE : Exact h owners ptr) (ha : h a = none) (hn : n ∈ owners) : ptr n ≠ a := by
  rintro rfl
  simpa [ha] using hE.objAt_isSome hn

/-- a new owner of a fresh object -/
theorem Exact.alloc_insert [DecidableEq ι] (hE : Exact h owners ptr) (ha : h a = none) (hn : n ∉ owners) :
    Exact (alloc h a x) (insert n owners) (Function.update ptr n a) where
  count_eq b := by
    rw [countAt_alloc, refs_insert hn]
    push_cast
    rw [← hE.count_eq]
    by_cases hb : b = a
    · subst hb
      simp [countAt, ha]
    · simp [hb, Ne.symm hb]
  pos := pos_alloc hE.pos

/-- a new owner of an object already on the heap -/
theorem Exact.get_insert [DecidableEq ι] (hE : Exact h owners ptr) (ha : (h a).isSome) (hn : n ∉ owners) :
    Exact (get h a) (insert n owners) (Function.update ptr n a) where
  count_eq b := by
    rw [countAt_get, refs_insert hn]
    push_cast
    rw [← hE.count_eq]
    by_cases hb : b = a
    · subst hb
      simp [ha]
    · simp [hb, Ne.symm hb]
  pos := pos_get hE.pos

/-- an owner that moves to a fresh object: the new object is placed, then the old one loses a reference -/
theorem Exact.repoint [DecidableEq ι] (hE : Exact h owners ptr) (ha : h a = none) (hn : n ∈ owners) :
    Exact (put (alloc h a x) (ptr n)) owners (Function.update ptr n a) where
  count_eq b := by
    have hne : ptr n ≠ a := hE.ptr_ne_of_none ha hn
    have hsome : (alloc h a x (ptr n)).isSome := by
      rw [alloc, Function.update_of_ne hne]
      exact hE.objAt_isSome hn
    rw [countAt_put, countAt_alloc, refs_update hn, ← hE.count_eq]
    by_cases hb : b = a
    · subst hb
      simp [countAt, ha, Ne.symm hne, hne]
    · by_cases hbn : b = ptr n
      · subst hbn
        simp [hsome, hb, Ne.symm hb]
      · simp [hb, hbn, Ne.symm hb, Ne.symm hbn]
  pos := pos_put (pos_alloc hE.pos)

/-- an object rewritten in place -/
theorem Exact.modify_at {f : α → α} (hE : Exact h owners ptr) : Exact (modify h a f) owners ptr where
  count_eq b := by rw [countAt_modify, hE.count_eq]
  pos := pos_modify hE.pos

end Owners

end Naos.Refcount
