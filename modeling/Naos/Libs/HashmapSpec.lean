/-
The hash map of src/kernel/src/libs/hashmap.c is a finite partial function from keys to values.

`HashmapOk` is the invariant of a map: NULL buckets with every counter 0, or a table of a power of two, at least 16,
of buckets that calloc accepted, well formed for linear probing from each key's home bucket (`LinearProbe.Wf`), with
`size` the number of OCCUPIED buckets and `used` the number of buckets that are not EMPTY, fewer than the buckets.
`content` is the partial function a map stands for: the value of each key's entry.

Every probe loop on a map that keeps the invariant ends, since `used < bucket_count` leaves an EMPTY bucket, which a
probe reaches within `bucket_count` steps (`LinearProbe.search_absent`, `LinearProbe.run_to`). Each call keeps the
invariant and does to `content` what the interface says: `hashmapGet_spec`, `hashmapRemove_spec`, `hashmapPut_spec`
(the key mapped to the value, or -ENOMEM with the map as it was), `hashmapInit_spec` and `hashmapClear_spec` (an
empty map). A capacity above 2^63 makes hashmap_next_capacity loop for ever (`hashmapNextCapacity_eq_none`).
-/
import Naos.Libs.Hashmap

namespace Naos.Hash

open LinearProbe

variable {α : Type}

/-! ### The table as slots -/

/-- an entry as a slot of the table -/
def HashmapEntry.view (e : HashmapEntry α) : Slot UInt64 α :=
  match e.state with
  | .empty => .empty
  | .occupied => .occupied e.key e.value
  | .tombstone => .tombstone

/-- the buckets as slots -/
def slots (T : Nat → HashmapEntry α) (p : Nat) : Slot UInt64 α := (T p).view

/-- the home bucket of a key in a table of `n` buckets -/
def home (n : Nat) (key : UInt64) : Nat := hashmapBucketIndex (hashmapHashU64 key) n

section View

variable {e : HashmapEntry α} {k : UInt64} {v : α}

@[simp] theorem view_eq_empty : e.view = .empty ↔ e.state = .empty := by
  rcases e with ⟨key, value, _ | _ | _⟩ <;> simp [HashmapEntry.view]

@[simp] theorem view_eq_occupied : e.view = .occupied k v ↔ e.state = .occupied ∧ e.key = k ∧ e.value = v := by
  rcases e with ⟨key, value, _ | _ | _⟩ <;> simp [HashmapEntry.view]

@[simp] theorem view_eq_tombstone : e.view = .tombstone ↔ e.state = .tombstone := by
  rcases e with ⟨key, value, _ | _ | _⟩ <;> simp [HashmapEntry.view]

@[simp] theorem isOccupied_view : e.view.isOccupied = hashmapEntryIsOccupied e := by
  rcases e with ⟨key, value, _ | _ | _⟩ <;> rfl

@[simp] theorem isEmpty_view : e.view.isEmpty = decide (e.state = .empty) := by
  rcases e with ⟨key, value, _ | _ | _⟩ <;> rfl

@[simp] theorem slots_update (T : Nat → HashmapEntry α) (q : Nat) (e : HashmapEntry α) :
    slots (Function.update T q e) = Function.update (slots T) q e.view := by
  funext p
  by_cases hpq : p = q
  · subst hpq
    simp [slots]
  · simp [slots, Function.update_of_ne hpq]

/-- the loops' tests of an entry, read on its slot: it is neither EMPTY nor the entry of `k` -/
theorem passes_of_view (hne : e.view ≠ .empty) (hnk : ∀ w, e.view ≠ .occupied k w) :
    e.state ≠ .empty ∧ ¬(e.state = .occupied ∧ e.key = k) :=
  ⟨fun hs => hne ((view_eq_empty).mpr hs), fun ⟨hs, hk⟩ => hnk e.value ((view_eq_occupied).mpr ⟨hs, hk, rfl⟩)⟩

end View

/-! ### The invariant -/

section Invariant

variable {n : Nat}

/-- the invariant of a table `T` of `n` buckets with the counters `size` and `used` -/
structure TableOk (T : Nat → HashmapEntry α) (n size used : Nat) : Prop where
  pow : ∃ i, 4 ≤ i ∧ n = 2 ^ i
  fits : SIZEOF_HASHMAP_ENTRY ≤ (2 ^ 64 - 1) / n
  wf : Wf (slots T) n (home n)
  size_eq : size = count Slot.isOccupied (slots T) n
  used_eq : used = count (fun s => !s.isEmpty) (slots T) n
  used_lt : used < n

/-- the invariant of a map -/
def HashmapOk (m : Hashmap α) : Prop :=
  match m.buckets with
  | none => m.bucketCount = 0 ∧ m.size = 0 ∧ m.used = 0
  | some T => TableOk T m.bucketCount m.size m.used

/-- the partial function a map stands for -/
def content (m : Hashmap α) (key : UInt64) : Option α :=
  match m.buckets with
  | none => none
  | some T => lookup (slots T) m.bucketCount key

theorem mask_eq_mod {i : Nat} (hn : n = 2 ^ i) (x : Nat) : x &&& (n - 1) = x % n := by
  rw [hn, Nat.and_two_pow_sub_one_eq_mod]

theorem home_lt {i : Nat} (hn : n = 2 ^ i) (k : UInt64) : home n k < n := by
  rw [home, hashmapBucketIndex, mask_eq_mod hn]
  exact Nat.mod_lt _ (hn ▸ Nat.two_pow_pos i)

theorem home_eq_probe {i : Nat} (hn : n = 2 ^ i) (k : UInt64) : home n k = probe n (home n k) 0 :=
  (probe_zero (home_lt hn k)).symm

/-- a probe loop's step `(bucket + 1) & (bucket_count - 1)` is the next bucket of the probe -/
theorem next_probe {i : Nat} (hn : n = 2 ^ i) (h j : Nat) : (probe n h j + 1) &&& (n - 1) = probe n h (j + 1) := by
  rw [mask_eq_mod hn, probe_succ]

namespace TableOk

variable {T : Nat → HashmapEntry α} {size used : Nat}

theorem pos (hok : TableOk T n size used) : 0 < n := by
  obtain ⟨i, -, hn⟩ := hok.pow
  exact hn ▸ Nat.two_pow_pos i

/-- calloc accepted the table, so it has fewer than 2^60 buckets -/
theorem lt_two_pow_sixty (hok : TableOk T n size used) : n < 2 ^ 60 := by
  have h := (Nat.le_div_iff_mul_le hok.pos).mp hok.fits
  simp only [SIZEOF_HASHMAP_ENTRY] at h
  omega

theorem size_le_used (hok : TableOk T n size used) : size ≤ used := by
  rw [hok.size_eq, hok.used_eq]
  apply List.countP_mono_left
  intro p _ hp
  cases hs : slots T p <;> simp_all [Slot.isOccupied, Slot.isEmpty]

/-- fewer than `n` buckets are not EMPTY, so one is -/
theorem exists_empty (hok : TableOk T n size used) : ∃ p < n, slots T p = .empty := by
  obtain ⟨p, hp, hP⟩ := exists_not_of_count_lt (fun s => !s.isEmpty) (hok.used_eq ▸ hok.used_lt)
  exact ⟨p, hp, by simpa using hP⟩

end TableOk

end Invariant

/-! ### The writes of the interface on a table -/

section Writes

variable {T : Nat → HashmapEntry α} {n size used : Nat}

/-- an entry of a key the table does not hold, written into a bucket that is not an entry and that the key's probe
reaches without passing an EMPTY bucket; `used` grows when that bucket was EMPTY -/
theorem TableOk.insert (hok : TableOk T n size used) {k : UInt64} (v : α) (hl : lookup (slots T) n k = none)
    {d : Nat} (hd : d < n) (hpath : ∀ j < d, slots T (probe n (home n k) j) ≠ .empty)
    (hfree : (slots T (probe n (home n k) d)).isOccupied = false)
    (hlt : used + (if (slots T (probe n (home n k) d)).isEmpty then 1 else 0) < n) :
    TableOk (Function.update T (probe n (home n k) d) ⟨k, v, .occupied⟩) n (size + 1)
      (used + if (slots T (probe n (home n k) d)).isEmpty then 1 else 0) where
  pow := hok.pow
  fits := hok.fits
  wf := by
    rw [slots_update]
    exact hok.wf.insert _ ((lookup_eq_none_iff).mp hl) hd rfl hpath
  size_eq := by
    have hc := count_update Slot.isOccupied (T := slots T) (HashmapEntry.view ⟨k, v, .occupied⟩)
      (probe_lt hok.pos (h := home n k) d)
    rw [hfree] at hc
    rw [slots_update, hok.size_eq]
    simpa [HashmapEntry.view, Slot.isOccupied] using hc.symm
  used_eq := by
    have hc := count_update (fun s => !s.isEmpty) (T := slots T) (HashmapEntry.view ⟨k, v, .occupied⟩)
      (probe_lt hok.pos (h := home n k) d)
    rw [slots_update, hok.used_eq]
    cases he : (slots T (probe n (home n k) d)).isEmpty <;> simp [he] at hc ⊢ <;> omega
  used_lt := hlt

/-- the table with an entry of `k` in the bucket the key's probe stops at is the table's partial function with `k`
mapped to `v` -/
theorem TableOk.lookup_insert {k : UInt64} {v : α} {q size' used' : Nat}
    (hok' : TableOk (Function.update T q ⟨k, v, .occupied⟩) n size' used') (hq : q < n)
    (hfree : (slots T q).isOccupied = false) :
    lookup (slots (Function.update T q ⟨k, v, .occupied⟩)) n = Function.update (lookup (slots T) n) k (some v) := by
  have hw := hok'.wf
  rw [slots_update] at hw ⊢
  refine lookup_update_occupied hw hq fun k' _ => ?_
  cases hs : slots T q with
  | occupied _ _ => simp [hs, Slot.isOccupied] at hfree
  | _ => rfl

theorem view_setValue {e : HashmapEntry α} {k : UInt64} {w : α} (he : e.view = .occupied k w) (v : α) :
    ({ e with value := v } : HashmapEntry α).view = .occupied k v := by
  obtain ⟨hs, hk, -⟩ := (view_eq_occupied).mp he
  exact (view_eq_occupied).mpr ⟨hs, hk, rfl⟩

/-- a new value for the entry of a key keeps the invariant and maps the key to it -/
theorem TableOk.setValue (hok : TableOk T n size used) {b : Nat} (hb : b < n) {k : UInt64} {w : α}
    (hT : slots T b = .occupied k w) (v : α) :
    TableOk (Function.update T b { T b with value := v }) n size used ∧
      lookup (slots (Function.update T b { T b with value := v })) n =
        Function.update (lookup (slots T) n) k (some v) := by
  have hview := view_setValue hT v
  have hw : Wf (Function.update (slots T) b (.occupied k v)) n (home n) := by
    apply hok.wf.mono
    · intro p _ k' v' hp
      by_cases hpb : p = b
      · subst hpb
        rw [Function.update_self] at hp
        cases hp
        exact ⟨w, hT⟩
      · rw [Function.update_of_ne hpb] at hp
        exact ⟨v', hp⟩
    · intro p _ hne
      by_cases hpb : p = b
      · subst hpb
        rw [Function.update_self]
        exact nofun
      · rwa [Function.update_of_ne hpb]
  refine ⟨⟨hok.pow, hok.fits, ?_, ?_, ?_, hok.used_lt⟩, ?_⟩
  · rwa [slots_update, hview]
  · rw [slots_update, hview, count_update_of_eq _ hb (by rw [hT]; rfl)]
    exact hok.size_eq
  · rw [slots_update, hview, count_update_of_eq _ hb (by rw [hT]; rfl)]
    exact hok.used_eq
  · rw [slots_update, hview]
    exact lookup_update_occupied hw hb fun k' hk' => by simp [hT, Slot.entryOf, Ne.symm hk']

variable [Zero α]

@[simp] theorem view_zero : (HashmapEntry.zero : HashmapEntry α).view = .empty := rfl

theorem slots_zero : slots (fun _ => (HashmapEntry.zero : HashmapEntry α)) = fun _ => .empty := rfl

/-- the entry of a key turned into a TOMBSTONE keeps the invariant with one OCCUPIED bucket fewer, and removes the
key -/
theorem TableOk.tombstone (hok : TableOk T n size used) {b : Nat} (hb : b < n) {k : UInt64} {w : α}
    (hT : slots T b = .occupied k w) :
    TableOk (Function.update T b { T b with value := 0, state := .tombstone }) n (size - 1) used ∧
      lookup (slots (Function.update T b { T b with value := 0, state := .tombstone })) n =
        Function.update (lookup (slots T) n) k none := by
  have hview : ({ T b with value := 0, state := .tombstone } : HashmapEntry α).view = .tombstone := rfl
  have hw : Wf (Function.update (slots T) b .tombstone) n (home n) := by
    apply hok.wf.mono
    · intro p _ k' v' hp
      by_cases hpb : p = b
      · subst hpb
        rw [Function.update_self] at hp
        cases hp
      · rw [Function.update_of_ne hpb] at hp
        exact ⟨v', hp⟩
    · intro p _ hne
      by_cases hpb : p = b
      · subst hpb
        rw [Function.update_self]
        exact nofun
      · rwa [Function.update_of_ne hpb]
  refine ⟨⟨hok.pow, hok.fits, ?_, ?_, ?_, hok.used_lt⟩, ?_⟩
  · rwa [slots_update, hview]
  · have hc := count_update Slot.isOccupied (T := slots T) Slot.tombstone hb
    rw [hT] at hc
    rw [slots_update, hview, hok.size_eq]
    simp [Slot.isOccupied] at hc
    omega
  · rw [slots_update, hview, count_update_of_eq _ hb (by rw [hT]; rfl)]
    exact hok.used_eq
  · rw [slots_update, hview]
    exact hok.wf.lookup_update_tombstone hb hT

/-- zeroed buckets, of a number that is a power of two from 16 on and that calloc accepts -/
theorem tableOk_zero (hpow : ∃ i, 4 ≤ i ∧ n = 2 ^ i) (hfits : SIZEOF_HASHMAP_ENTRY ≤ (2 ^ 64 - 1) / n) :
    TableOk (fun _ => (HashmapEntry.zero : HashmapEntry α)) n 0 0 where
  pow := hpow
  fits := hfits
  wf := wf_empty
  size_eq := by simp [count, slots_zero, Slot.isOccupied]
  used_eq := by simp [count, slots_zero, Slot.isEmpty]
  used_lt := by
    obtain ⟨i, -, hn⟩ := hpow
    exact hn ▸ Nat.two_pow_pos i

/-- the zeroed buckets of a table -/
theorem TableOk.zero (hok : TableOk T n size used) : TableOk (fun _ => (HashmapEntry.zero : HashmapEntry α)) n 0 0 :=
  tableOk_zero hok.pow hok.fits

end Writes

/-! ### A map and its table -/

section Map

variable {m : Hashmap α} {T : Nat → HashmapEntry α}

theorem HashmapOk.table (hm : HashmapOk m) (hb : m.buckets = some T) : TableOk T m.bucketCount m.size m.used := by
  simpa [HashmapOk, hb] using hm

theorem HashmapOk.of_table (hb : m.buckets = some T) (hok : TableOk T m.bucketCount m.size m.used) :
    HashmapOk m := by
  simpa [HashmapOk, hb] using hok

/-- a map with NULL buckets is HASHMAP_INIT -/
theorem HashmapOk.eq_init (hm : HashmapOk m) (hb : m.buckets = none) : m = HASHMAP_INIT := by
  simp only [HashmapOk, hb] at hm
  obtain ⟨hc, hs, hu⟩ := hm
  cases m
  simp_all [HASHMAP_INIT]

/-- a map with buckets to count has its table -/
theorem HashmapOk.exists_table (hm : HashmapOk m) (hpos : 0 < m.bucketCount) : ∃ T, m.buckets = some T := by
  cases hb : m.buckets with
  | none =>
    rw [hm.eq_init hb] at hpos
    exact absurd hpos (Nat.lt_irrefl 0)
  | some T => exact ⟨T, rfl⟩

theorem content_of_table (hb : m.buckets = some T) : content m = lookup (slots T) m.bucketCount := by
  funext k
  simp [content, hb]

theorem content_of_null (hb : m.buckets = none) : content m = fun _ => none := by
  funext k
  simp [content, hb]

/-- a table left with no OCCUPIED bucket holds no key -/
theorem lookup_eq_none_of_size_zero {n used : Nat} (hok : TableOk T n 0 used) (k : UInt64) :
    lookup (slots T) n k = none := by
  refine (lookup_eq_none_iff).mpr fun p hp w hT => ?_
  have hnone := count_eq_zero Slot.isOccupied hok.size_eq.symm hp
  simp [hT, Slot.isOccupied] at hnone

end Map

/-! ### The probe loops -/

section Loops

variable {T : Nat → HashmapEntry α} {n i h d : Nat} {k : UInt64}

section PutLoop

variable {m : Hashmap α} (hn : m.bucketCount = 2 ^ i) {v : α}
include hn

/-- hashmap_put's probe loop, on a key with an entry at step `d`, gives the entry the new value -/
theorem hashmapPutLoop_found (hpass : Passes (slots T) m.bucketCount h k d) {w : α}
    (hfound : slots T (probe m.bucketCount h d) = .occupied k w) :
    ∀ f j ft, j ≤ d → d < j + f → hashmapPutLoop m T k v (probe m.bucketCount h j) ft f =
      some { m with buckets := some (Function.update T (probe m.bucketCount h d)
        { T (probe m.bucketCount h d) with value := v }) } := by
  intro f
  induction f with
  | zero => intro j ft hj hf; omega
  | succ f ih =>
    intro j ft hj hf
    rcases Nat.lt_or_ge j d with hlt | hge
    · obtain ⟨hs, hks⟩ := passes_of_view (hpass j hlt).1 (hpass j hlt).2
      simp only [hashmapPutLoop, if_neg hs, if_neg hks, next_probe hn]
      exact ih (j + 1) _ (by omega) (by omega)
    · obtain rfl : j = d := by omega
      obtain ⟨hs, hk, -⟩ := (view_eq_occupied).mp hfound
      simp [hashmapPutLoop, hs, hk]

/-- hashmap_put's probe loop, on a key without an entry whose probe meets an EMPTY bucket at step `e`, writes the
entry into the first TOMBSTONE before it, or into that EMPTY bucket; `used` grows only in the second case.
`ft`, the first TOMBSTONE seen so far, is one of the buckets the loop has passed. -/
theorem hashmapPutLoop_absent (hpass : Passes (slots T) m.bucketCount h k e)
    (hempty : slots T (probe m.bucketCount h e) = .empty) :
    ∀ f j ft, j ≤ e → e < j + f →
      (∀ t, ft = some t → ∃ l < j, t = probe m.bucketCount h l ∧ slots T t = .tombstone) →
      ∃ q, (q = probe m.bucketCount h e ∨ ∃ l < e, q = probe m.bucketCount h l ∧ slots T q = .tombstone) ∧
        hashmapPutLoop m T k v (probe m.bucketCount h j) ft f = some { m with
          buckets := some (Function.update T q ⟨k, v, .occupied⟩)
          used := if q = probe m.bucketCount h e then m.used + 1 else m.used
          size := m.size + 1 } := by
  intro f
  induction f with
  | zero => intro j ft hj hf; omega
  | succ f ih =>
    intro j ft hj hf hft
    rcases Nat.lt_or_ge j e with hlt | hge
    · obtain ⟨hs, hks⟩ := passes_of_view (hpass j hlt).1 (hpass j hlt).2
      simp only [hashmapPutLoop, if_neg hs, if_neg hks, next_probe hn]
      refine ih (j + 1) _ (by omega) (by omega) fun t ht => ?_
      split_ifs at ht with htomb
      · cases ht
        exact ⟨j, by omega, rfl, (view_eq_tombstone).mpr htomb.1⟩
      · obtain ⟨l, hl, hlt', hlt''⟩ := hft t ht
        exact ⟨l, by omega, hlt', hlt''⟩
    · obtain rfl : j = e := by omega
      have hs := (view_eq_empty).mp hempty
      cases ft with
      | none => exact ⟨_, .inl rfl, by simp [hashmapPutLoop, hs]⟩
      | some t =>
        obtain ⟨l, hl, rfl, htomb⟩ := hft t rfl
        exact ⟨_, .inr ⟨l, hl, rfl, htomb⟩, by simp [hashmapPutLoop, hs]⟩

end PutLoop

/-- hashmap_put's probe loop, on a map with room for one more bucket in use, maps the key to the value -/
theorem hashmapPutLoop_spec {m : Hashmap α} (hm : HashmapOk m) (hb : m.buckets = some T)
    (hroom : m.used + 1 < m.bucketCount) (k : UInt64) (v : α) :
    ∃ m', hashmapPutLoop m T k v (home m.bucketCount k) none m.bucketCount = some m' ∧ HashmapOk m' ∧
      content m' = Function.update (content m) k (some v) := by
  have hok := hm.table hb
  obtain ⟨i, -, hn⟩ := hok.pow
  rw [home_eq_probe hn, content_of_table hb]
  cases hl : lookup (slots T) m.bucketCount k with
  | some w =>
    obtain ⟨d, hd, hpass, hfound⟩ := hok.wf.search_found hl
    obtain ⟨hok', hl'⟩ := hok.setValue (probe_lt hok.pos d) hfound v
    refine ⟨_, hashmapPutLoop_found hn hpass hfound m.bucketCount 0 none (by omega) (by omega), HashmapOk.of_table rfl hok', ?_⟩
    rw [content_of_table rfl, hl']
  | none =>
    obtain ⟨e, he, hpass, hempty⟩ := search_absent hl hok.exists_empty (home m.bucketCount k)
    obtain ⟨q, hq, hrun⟩ := hashmapPutLoop_absent hn (v := v) hpass hempty m.bucketCount 0 none (by omega) (by omega)
      fun _ h => by cases h
    refine ⟨_, hrun, ?_⟩
    rcases hq with rfl | ⟨l, hle, rfl, htomb⟩
    · have hok' := hok.insert v hl he (fun j hj => (hpass j hj).1) (by simp [hempty, Slot.isOccupied])
        (by simp [hempty, Slot.isEmpty]; omega)
      have hfree : (slots T (probe m.bucketCount (home m.bucketCount k) e)).isOccupied = false := by
        simp [hempty, Slot.isOccupied]
      simp only [hempty, Slot.isEmpty, if_true] at hok'
      refine ⟨HashmapOk.of_table rfl (by simpa using hok'), ?_⟩
      rw [content_of_table rfl]
      exact hok'.lookup_insert (probe_lt hok.pos e) hfree
    · have hne : probe m.bucketCount (home m.bucketCount k) l ≠ probe m.bucketCount (home m.bucketCount k) e :=
        fun h => absurd (probe_inj (by omega) he h) (by omega)
      have hok' := hok.insert v hl (d := l) (by omega) (fun j hj => (hpass j (by omega)).1)
        (by simp [htomb, Slot.isOccupied]) (by simp [htomb, Slot.isEmpty]; omega)
      have hfree : (slots T (probe m.bucketCount (home m.bucketCount k) l)).isOccupied = false := by
        simp [htomb, Slot.isOccupied]
      simp only [htomb, Slot.isEmpty, Bool.false_eq_true, if_false, Nat.add_zero] at hok'
      refine ⟨HashmapOk.of_table rfl (by simpa [hne] using hok'), ?_⟩
      rw [content_of_table rfl]
      exact hok'.lookup_insert (probe_lt hok.pos l) hfree

variable [Zero α]

theorem hashmapGetLoop_pass (hn : n = 2 ^ i) (hpass : Passes (slots T) n h k d) :
    ∀ j < d, ∀ f, hashmapGetLoop T n k (probe n h j) (f + 1) = hashmapGetLoop T n k (probe n h (j + 1)) f := by
  intro j hj f
  obtain ⟨hs, hks⟩ := passes_of_view (hpass j hj).1 (hpass j hj).2
  simp only [hashmapGetLoop, if_neg hs, if_neg hks, next_probe hn]

/-- hashmap_get's probe loop ends at the value of the key's entry, or at NULL when it has none -/
theorem hashmapGetLoop_eq {size used : Nat} (hok : TableOk T n size used) (k : UInt64) :
    hashmapGetLoop T n k (home n k) n = some ((lookup (slots T) n k).getD 0) := by
  obtain ⟨i, -, hn⟩ := hok.pow
  rw [home_eq_probe hn k]
  cases hl : lookup (slots T) n k with
  | none =>
    obtain ⟨d, hd, hpass, hempty⟩ := search_absent hl hok.exists_empty (home n k)
    rw [run_to _ (hashmapGetLoop_pass hn hpass) hd]
    simp [hashmapGetLoop, (view_eq_empty).mp hempty]
  | some v =>
    obtain ⟨d, hd, hpass, hfound⟩ := hok.wf.search_found hl
    rw [run_to _ (hashmapGetLoop_pass hn hpass) hd]
    obtain ⟨hs, hk, hv⟩ := (view_eq_occupied).mp hfound
    simp [hashmapGetLoop, hs, hk, hv]

/-- hashmap_get returns the value the map holds for the key, NULL when it holds none -/
theorem hashmapGet_spec {m : Hashmap α} (hm : HashmapOk m) (k : UInt64) :
    hashmapGet m k = some ((content m k).getD 0) := by
  cases hb : m.buckets with
  | none => simp [hashmapGet, hb, content_of_null hb]
  | some T =>
    have hok := hm.table hb
    simp only [hashmapGet, hb, if_neg hok.pos.ne', content_of_table hb]
    exact hashmapGetLoop_eq hok k

theorem hashmapRemoveLoop_pass {m : Hashmap α} (hn : m.bucketCount = 2 ^ i)
    (hpass : Passes (slots T) m.bucketCount h k d) :
    ∀ j < d, ∀ f, hashmapRemoveLoop m T k (probe m.bucketCount h j) (f + 1) =
      hashmapRemoveLoop m T k (probe m.bucketCount h (j + 1)) f := by
  intro j hj f
  obtain ⟨hs, hks⟩ := passes_of_view (hpass j hj).1 (hpass j hj).2
  simp only [hashmapRemoveLoop, if_neg hs, if_neg hks, next_probe hn]

/-- hashmap_remove returns the value the map holds for the key, NULL when it holds none, and removes the key; the
map keeps its invariant -/
theorem hashmapRemove_spec {m : Hashmap α} (hm : HashmapOk m) (k : UInt64) :
    ∃ m', hashmapRemove m k = some ((content m k).getD 0, m') ∧ HashmapOk m' ∧
      content m' = Function.update (content m) k none := by
  cases hb : m.buckets with
  | none =>
    refine ⟨m, by simp [hashmapRemove, hb, content_of_null hb], hm, ?_⟩
    rw [content_of_null hb]
    exact (Function.update_eq_self k _).symm
  | some T =>
    have hok := hm.table hb
    obtain ⟨i, -, hn⟩ := hok.pow
    have hrun : hashmapRemove m k =
        hashmapRemoveLoop m T k (probe m.bucketCount (home m.bucketCount k) 0) m.bucketCount := by
      rw [← home_eq_probe hn]
      simp [hashmapRemove, hb, hok.pos.ne', home]
    rw [hrun, content_of_table hb]
    cases hl : lookup (slots T) m.bucketCount k with
    | none =>
      obtain ⟨d, hd, hpass, hempty⟩ := search_absent hl hok.exists_empty (home _ k)
      rw [run_to _ (hashmapRemoveLoop_pass hn hpass) hd]
      refine ⟨m, by simp [hashmapRemoveLoop, (view_eq_empty).mp hempty], hm, ?_⟩
      rw [content_of_table hb, ← hl, Function.update_eq_self]
    | some v =>
      obtain ⟨d, hd, hpass, hfound⟩ := hok.wf.search_found hl
      rw [run_to _ (hashmapRemoveLoop_pass hn hpass) hd]
      set b := probe m.bucketCount (home m.bucketCount k) d with hbdef
      obtain ⟨hs, hk, hv⟩ := (view_eq_occupied).mp hfound
      obtain ⟨hok', hl'⟩ := hok.tombstone (probe_lt hok.pos d) hfound
      simp only [hashmapRemoveLoop, hs, hk, hv, reduceCtorEq, if_false, and_self, if_true, Option.getD_some]
      by_cases hz : m.size - 1 = 0
      · refine ⟨{ m with buckets := some fun _ => HashmapEntry.zero, size := m.size - 1, used := 0 },
          by simp only [hz, if_true], HashmapOk.of_table rfl (by rw [hz]; exact hok'.zero), ?_⟩
        rw [hz] at hok'
        funext k'
        rw [content_of_table rfl, slots_zero, lookup_empty, ← congrFun hl' k']
        exact (lookup_eq_none_of_size_zero hok' k').symm
      · refine ⟨{ m with
            buckets := some (Function.update T b { T b with value := 0, state := .tombstone })
            size := m.size - 1 }, by simp only [hz, hk, if_false], HashmapOk.of_table rfl hok', ?_⟩
        rw [content_of_table rfl]
        exact hl'

end Loops

/-! ### Rehashing -/

section Rehash

variable {c n : Nat}

/-- the doubling loop of hashmap_next_capacity from `2 ^ i`, for a capacity of at most 2^63, ends at a power of
two at least the capacity -/
theorem hashmapNextCapacityLoop_spec (hc : c ≤ 2 ^ 63) :
    ∀ fuel i, 4 ≤ i → i ≤ 63 → 63 - i < fuel →
      ∃ j, i ≤ j ∧ c ≤ 2 ^ j ∧ hashmapNextCapacityLoop c (2 ^ i) fuel = some (2 ^ j) := by
  intro fuel
  induction fuel with
  | zero => intro i _ _ h; omega
  | succ fuel ih =>
    intro i hi hi63 hfuel
    by_cases hlt : 2 ^ i < c
    · have hi' : i < 63 := by
        by_contra hge
        have : 2 ^ 63 ≤ 2 ^ i := Nat.pow_le_pow_right (by norm_num) (by omega)
        omega
      have hdouble : (2 ^ i <<< 1) % 2 ^ 64 = 2 ^ (i + 1) := by
        rw [Nat.shiftLeft_eq, ← Nat.pow_succ]
        exact Nat.mod_eq_of_lt (Nat.pow_lt_pow_right (by norm_num) (by omega))
      obtain ⟨j, hij, hcj, hrun⟩ := ih (i + 1) (by omega) (by omega) (by omega)
      refine ⟨j, by omega, hcj, ?_⟩
      rw [hashmapNextCapacityLoop, if_pos hlt, hdouble, hrun]
    · exact ⟨i, le_refl i, by omega, by rw [hashmapNextCapacityLoop, if_neg hlt]⟩

/-- hashmap_next_capacity of at most 2^63 is a power of two from 16 on, at least the capacity -/
theorem hashmapNextCapacity_spec (hc : c ≤ 2 ^ 63) :
    ∃ i, 4 ≤ i ∧ c ≤ 2 ^ i ∧ hashmapNextCapacity c = some (2 ^ i) := by
  obtain ⟨j, hj, hcj, hrun⟩ := hashmapNextCapacityLoop_spec hc 64 4 (le_refl 4) (by norm_num) (by norm_num)
  exact ⟨j, hj, hcj, hrun⟩

/-- once `next` has wrapped to 0, the doubling loop stays there -/
theorem hashmapNextCapacityLoop_zero (hc : 0 < c) : ∀ fuel, hashmapNextCapacityLoop c 0 fuel = none := by
  intro fuel
  induction fuel with
  | zero => rfl
  | succ fuel ih => rw [hashmapNextCapacityLoop, if_pos hc, Nat.zero_shiftLeft, Nat.zero_mod, ih]

/-- hashmap_next_capacity of more than 2^63 never returns: `next` doubles up to 2^63 and wraps to 0 -/
theorem hashmapNextCapacity_eq_none (hc : 2 ^ 63 < c) : hashmapNextCapacity c = none := by
  have hloop : ∀ fuel i, i ≤ 63 → 64 - i ≤ fuel → hashmapNextCapacityLoop c (2 ^ i) fuel = none := by
    intro fuel
    induction fuel with
    | zero => intro i _ _; rfl
    | succ fuel ih =>
      intro i hi63 hfuel
      have hlt : 2 ^ i < c := lt_of_le_of_lt (Nat.pow_le_pow_right (by norm_num) hi63) hc
      rw [hashmapNextCapacityLoop, if_pos hlt, Nat.shiftLeft_eq, ← Nat.pow_succ]
      rcases Nat.lt_or_ge i 63 with hi | hi
      · rw [Nat.mod_eq_of_lt (Nat.pow_lt_pow_right (by norm_num) (by omega))]
        exact ih (i + 1) (by omega) (by omega)
      · obtain rfl : i = 63 := by omega
        rw [Nat.mod_self]
        exact hashmapNextCapacityLoop_zero (by omega) fuel
  exact hloop 64 4 (by norm_num) (by norm_num)

variable {NT : Nat → HashmapEntry α} {i h d : Nat} {k : UInt64}

theorem insertRehashedLoop_pass (hn : n = 2 ^ i) (hocc : ∀ j < d, hashmapEntryIsOccupied (NT (probe n h j)) = true) :
    ∀ j < d, ∀ f, insertRehashedLoop NT n (probe n h j) (f + 1) = insertRehashedLoop NT n (probe n h (j + 1)) f := by
  intro j hj f
  simp only [insertRehashedLoop, hocc j hj, if_true, next_probe hn]

/-- hashmap_insert_rehashed, into new buckets without TOMBSTONE that do not hold the key and have room for one
more, writes the entry into the first EMPTY bucket of the key's probe -/
theorem hashmapInsertRehashed_spec {cnt : Nat} (hok : TableOk NT n cnt cnt)
    (hnt : ∀ p < n, (NT p).state ≠ .tombstone) (hl : lookup (slots NT) n k = none) (hroom : cnt + 1 < n) (v : α) :
    ∃ NT', hashmapInsertRehashed NT n k v = some NT' ∧ TableOk NT' n (cnt + 1) (cnt + 1) ∧
      (∀ p < n, (NT' p).state ≠ .tombstone) ∧
      lookup (slots NT') n = Function.update (lookup (slots NT) n) k (some v) := by
  obtain ⟨i, -, hn⟩ := hok.pow
  obtain ⟨e, he, hpass, hempty⟩ := search_absent hl hok.exists_empty (home n k)
  have hocc : ∀ j < e, hashmapEntryIsOccupied (NT (probe n (home n k) j)) = true := by
    intro j hj
    have hne := (hpass j hj).1
    have hnt' := hnt _ (probe_lt hok.pos (h := home n k) j)
    simp only [slots, ne_eq, view_eq_empty] at hne
    simp only [hashmapEntryIsOccupied, decide_eq_true_eq]
    cases hs : (NT (probe n (home n k) j)).state <;> simp_all
  have hstop : hashmapEntryIsOccupied (NT (probe n (home n k) e)) = false := by
    simp [hashmapEntryIsOccupied, (view_eq_empty).mp hempty]
  have hrun : insertRehashedLoop NT n (home n k) n = some (probe n (home n k) e) := by
    have hto := run_to (insertRehashedLoop NT n) (insertRehashedLoop_pass hn hocc) he
    rw [← home_eq_probe hn k] at hto
    rw [hto]
    simp [insertRehashedLoop, hstop]
  have hfree : (slots NT (probe n (home n k) e)).isOccupied = false := by simp [hempty, Slot.isOccupied]
  have hok' := hok.insert v hl he (fun j hj => (hpass j hj).1) hfree (by simp [hempty, Slot.isEmpty]; omega)
  simp only [hempty, Slot.isEmpty, if_true] at hok'
  refine ⟨Function.update NT (probe n (home n k) e) ⟨k, v, .occupied⟩, ?_, hok', ?_,
    hok'.lookup_insert (probe_lt hok.pos e) hfree⟩
  · show Option.map _ (insertRehashedLoop NT n (home n k) n) = _
    rw [hrun]
    rfl
  intro p hp
  by_cases hpe : p = probe n (home n k) e
  · subst hpe
    simp
  · rw [Function.update_of_ne hpe]
    exact hnt p hp

variable [Zero α]

/-- calloc of a positive number of entries: NULL, or zeroed entries of a byte count that fits a size_t -/
theorem calloc_spec (allocOk : Bool) (hn : 0 < n) :
    (calloc allocOk n : Option (Nat → HashmapEntry α)) = none ∨
      calloc allocOk n = some (fun _ => (HashmapEntry.zero : HashmapEntry α)) ∧
        SIZEOF_HASHMAP_ENTRY ≤ (2 ^ 64 - 1) / n := by
  unfold calloc
  by_cases hover : SIZEOF_HASHMAP_ENTRY > (2 ^ 64 - 1) / n
  · exact .inl (if_pos ⟨hn.ne', hover⟩)
  · rw [if_neg (fun h => hover h.2)]
    cases allocOk
    · exact .inl rfl
    · exact .inr ⟨rfl, Nat.le_of_not_gt hover⟩

/-- the new buckets once the copy loop of hashmap_rehash has gone through the old buckets `[0, l)` -/
structure CopyOk (old : Nat → HashmapEntry α) (l : Nat) (NT : Nat → HashmapEntry α) (n : Nat) : Prop where
  table : TableOk NT n (count Slot.isOccupied (slots old) l) (count Slot.isOccupied (slots old) l)
  no_tombstone : ∀ p < n, (NT p).state ≠ .tombstone
  lookup_eq : lookup (slots NT) n = lookup (slots old) l

/-- the copy loop of hashmap_rehash, from old buckets with each key once into zeroed new buckets with room for all
the old entries, puts every old entry into the new buckets and nothing else -/
theorem rehashCopy_spec {old : Nat → HashmapEntry α} {oldCount : Nat} {home' : UInt64 → Nat}
    (hw : Wf (slots old) oldCount home') (hfresh : TableOk (fun _ => (HashmapEntry.zero : HashmapEntry α)) n 0 0)
    (hroom : count Slot.isOccupied (slots old) oldCount < n) :
    ∃ NT, rehashCopy old oldCount (fun _ => HashmapEntry.zero) n = some NT ∧ CopyOk old oldCount NT n := by
  have hprefix : ∀ l ≤ oldCount, ∃ NT, (List.range l).foldlM (fun newBuckets i =>
      if hashmapEntryIsOccupied (old i) then hashmapInsertRehashed newBuckets n (old i).key (old i).value
      else some newBuckets) (fun _ => HashmapEntry.zero) = some NT ∧ CopyOk old l NT n := by
    intro l
    induction l with
    | zero =>
      intro _
      exact ⟨_, rfl, ⟨hfresh, fun _ _ => nofun, funext fun k => lookup_empty k⟩⟩
    | succ l ih =>
      intro hl
      obtain ⟨NT, hrun, hcopy⟩ := ih (by omega)
      rw [List.range_succ, List.foldlM_append, hrun]
      cases hocc : hashmapEntryIsOccupied (old l) with
      | false =>
        have hslot : (slots old l).isOccupied = false := by simpa [slots] using hocc
        refine ⟨NT, by simp [hocc], ?_, hcopy.no_tombstone, ?_⟩
        · simpa only [count_succ, hslot, Bool.false_eq_true, if_false, Nat.add_zero] using hcopy.table
        · rw [lookup_succ_of_not_occupied hslot]
          exact hcopy.lookup_eq
      | true =>
        have hslot : slots old l = .occupied (old l).key (old l).value := by
          simp [slots, view_eq_occupied, hashmapEntryIsOccupied] at hocc ⊢
          exact hocc
        have hfirst : lookup (slots old) l (old l).key = none := by
          refine (lookup_eq_none_iff).mpr fun p hp w hT => ?_
          have := hw.unique p (by omega) l (by omega) _ w _ hT hslot
          omega
        have hcount : count Slot.isOccupied (slots old) (l + 1) = count Slot.isOccupied (slots old) l + 1 := by
          rw [count_succ, hslot]
          rfl
        have hle := count_mono Slot.isOccupied (T := slots old) hl
        obtain ⟨NT', hins, hok', hnt', hl'⟩ := hashmapInsertRehashed_spec hcopy.table hcopy.no_tombstone
          (by rw [hcopy.lookup_eq]; exact hfirst) (by omega) (old l).value
        refine ⟨NT', by simp [hocc, hins], ?_⟩
        refine ⟨hcount ▸ hok', hnt', ?_⟩
        rw [hl', hcopy.lookup_eq, lookup_succ_of_occupied hslot hfirst]
  exact hprefix oldCount (le_refl _)

/-- what the old buckets of a map give the copy loop: each key once, `size` entries, and the map's partial
function -/
theorem HashmapOk.old {m : Hashmap α} (hm : HashmapOk m) :
    Wf (slots (m.buckets.getD fun _ => HashmapEntry.zero)) m.bucketCount (home m.bucketCount) ∧
      count Slot.isOccupied (slots (m.buckets.getD fun _ => HashmapEntry.zero)) m.bucketCount = m.size ∧
      lookup (slots (m.buckets.getD fun _ => HashmapEntry.zero)) m.bucketCount = content m := by
  cases hb : m.buckets with
  | none =>
    obtain rfl := hm.eq_init hb
    exact ⟨⟨fun p hp => absurd hp (Nat.not_lt_zero p), fun p hp => absurd hp (Nat.not_lt_zero p)⟩, rfl, rfl⟩
  | some T =>
    have hok := hm.table hb
    exact ⟨hok.wf, hok.size_eq.symm, (content_of_table hb).symm⟩

/-- hashmap_rehash to a power of two from 16 on with room for the entries: -ENOMEM with the map as it was, or 0
with new buckets of the same partial function and no TOMBSTONE -/
theorem hashmapRehash_spec {m : Hashmap α} (hm : HashmapOk m) (allocOk : Bool) {target i : Nat} (hi : 4 ≤ i)
    (hcap : hashmapNextCapacity target = some (2 ^ i)) (hroom : m.size < 2 ^ i) :
    hashmapRehash m allocOk target = some (-ENOMEM, m) ∨
      ∃ T, hashmapRehash m allocOk target = some (0, ⟨some T, 2 ^ i, m.size, m.size⟩) ∧
        TableOk T (2 ^ i) m.size m.size ∧ lookup (slots T) (2 ^ i) = content m := by
  obtain ⟨hw, hcount, hlookup⟩ := hm.old
  rcases calloc_spec (α := α) allocOk (Nat.two_pow_pos i) with hnull | ⟨hzero, hfits⟩
  · left
    simp [hashmapRehash, hcap, hnull]
  · right
    obtain ⟨NT, hcopy, hnew⟩ := rehashCopy_spec hw (tableOk_zero ⟨i, hi, rfl⟩ hfits) (by omega)
    refine ⟨NT, by simp [hashmapRehash, hcap, hzero, hcopy], ?_, ?_⟩
    · simpa [hcount] using hnew.table
    · rw [hnew.lookup_eq, hlookup]

end Rehash

/-! ### The calls -/

section Calls

variable [Zero α] {m : Hashmap α}

/-- hashmap_init with a capacity of at most 2^63: -ENOMEM with the map reset, or 0 with an empty map of at least 16
buckets -/
theorem hashmapInit_spec (allocOk : Bool) {c : Nat} (hc : c ≤ 2 ^ 63) :
    (hashmapInit allocOk c : Option (Int × Hashmap α)) = some (-ENOMEM, HASHMAP_INIT) ∨
      ∃ m' : Hashmap α, hashmapInit allocOk c = some (0, m') ∧ HashmapOk m' ∧ content m' = (fun _ => none) ∧
        m'.size = 0 ∧ m'.used = 0 ∧ 16 ≤ m'.bucketCount := by
  have hc' : (if c ≠ 0 then c else HASHMAP_MIN_CAPACITY) ≤ 2 ^ 63 := by
    split_ifs
    · exact hc
    · simp [HASHMAP_MIN_CAPACITY]
  obtain ⟨i, hi, -, hcap⟩ := hashmapNextCapacity_spec hc'
  have hinit : HashmapOk (HASHMAP_INIT : Hashmap α) := ⟨rfl, rfl, rfl⟩
  rcases hashmapRehash_spec hinit allocOk hi hcap (Nat.two_pow_pos i) with henomem | ⟨T, hrun, hok, hl⟩
  · exact .inl henomem
  · refine .inr ⟨_, hrun, HashmapOk.of_table rfl hok, ?_, rfl, rfl, ?_⟩
    · rw [content_of_table rfl, hl]
      rfl
    · show 2 ^ 4 ≤ 2 ^ i
      exact Nat.pow_le_pow_right (by norm_num) hi

/-- hashmap_clear keeps the invariant and empties the map -/
theorem hashmapClear_spec (hm : HashmapOk m) :
    HashmapOk (hashmapClear m) ∧ content (hashmapClear m) = fun _ => none := by
  cases hb : m.buckets with
  | none =>
    simp only [hashmapClear, hb]
    exact ⟨hm, content_of_null hb⟩
  | some T =>
    simp only [hashmapClear, hb]
    refine ⟨HashmapOk.of_table rfl (hm.table hb).zero, ?_⟩
    rw [content_of_table rfl, slots_zero]
    exact funext lookup_empty

/-- a rehash by hashmap_put to room for one more entry: -ENOMEM with the map as it was, or 0 with a map of the
same partial function and room for one more bucket in use -/
theorem hashmapRehash_room (hm : HashmapOk m) (allocOk : Bool) {target : Nat} (htarget : target ≤ 2 ^ 63)
    (hroom : m.size + 1 < target) :
    hashmapRehash m allocOk target = some (-ENOMEM, m) ∨
      ∃ m2 T2, hashmapRehash m allocOk target = some (0, m2) ∧ m2.buckets = some T2 ∧ HashmapOk m2 ∧
        m2.used + 1 < m2.bucketCount ∧ content m2 = content m := by
  obtain ⟨i, hi, hti, hcap⟩ := hashmapNextCapacity_spec htarget
  rcases hashmapRehash_spec hm allocOk hi hcap (by omega) with henomem | ⟨T2, hrun, hok2, hl⟩
  · exact .inl henomem
  · refine .inr ⟨_, T2, hrun, rfl, HashmapOk.of_table rfl hok2, ?_, by rw [content_of_table rfl, hl]⟩
    show m.size + 1 < 2 ^ i
    omega

/-- hashmap_put maps the key to the value and keeps the invariant, or fails with -ENOMEM and leaves the map as it
was -/
theorem hashmapPut_spec (hm : HashmapOk m) (allocOk : Bool) (k : UInt64) (v : α) :
    (∃ m', hashmapPut m allocOk k v = some (0, m') ∧ HashmapOk m' ∧
      content m' = Function.update (content m) k (some v)) ∨
    hashmapPut m allocOk k v = some (-ENOMEM, m) := by
  have htail : ∀ (m2 : Hashmap α) T2, m2.buckets = some T2 → HashmapOk m2 → m2.used + 1 < m2.bucketCount →
      content m2 = content m → ∃ m', hashmapPutLoop m2 T2 k v (hashmapBucketIndex (hashmapHashU64 k) m2.bucketCount)
        none m2.bucketCount = some m' ∧ HashmapOk m' ∧ content m' = Function.update (content m) k (some v) := by
    intro m2 T2 hb2 hm2 hroom2 hc2
    obtain ⟨m', hloop, hm', hc'⟩ := hashmapPutLoop_spec hm2 hb2 hroom2 k v
    exact ⟨m', hloop, hm', by rw [hc', hc2]⟩
  cases hb : m.buckets with
  | none =>
    obtain rfl := hm.eq_init hb
    rcases hashmapInit_spec (α := α) allocOk (c := HASHMAP_MIN_CAPACITY) (by decide) with
      henomem | ⟨m1, hinit, hm1, hc1, hs1, hu1, hbc1⟩
    · right
      simp [hashmapPut, HASHMAP_INIT, henomem, ENOMEM]
    · left
      obtain ⟨T1, hb1⟩ := hm1.exists_table (by omega)
      have hgrow : hashmapShouldGrow m1 = false := by
        simp only [hashmapShouldGrow, hu1, HASHMAP_MAX_LOAD_DEN, HASHMAP_MAX_LOAD_NUM, decide_eq_false_iff_not]
        omega
      have hrebuild : hashmapShouldRebuild m1 = false := by
        simp [hashmapShouldRebuild, hu1, hs1, HASHMAP_TOMBSTONE_REBUILD_MIN]
      obtain ⟨m', hloop, hm', hc'⟩ := htail m1 T1 hb1 hm1 (by omega) (by rw [hc1, content_of_null rfl])
      exact ⟨m', by simp [hashmapPut, HASHMAP_INIT, hinit, hgrow, hrebuild, hb1, hloop], hm', hc'⟩
  | some T =>
    have hok := hm.table hb
    have hlt := hok.used_lt
    have hsize := hok.size_le_used
    have hsmall := hok.lt_two_pow_sixty
    have hpos := hok.pos
    by_cases hgrow : hashmapShouldGrow m = true
    · have hdouble : m.bucketCount <<< 1 = 2 * m.bucketCount := by
        rw [Nat.shiftLeft_eq]
        omega
      have htarget : m.bucketCount <<< 1 ≤ 2 ^ 63 := by omega
      have hfits : m.size + 1 < m.bucketCount <<< 1 := by omega
      rcases hashmapRehash_room hm allocOk htarget hfits with
        henomem | ⟨m2, T2, hrun, hb2, hm2, hroom2, hc2⟩
      · right
        simp [hashmapPut, hb, hpos.ne', hgrow, henomem, ENOMEM]
      · left
        obtain ⟨m', hloop, hm', hc'⟩ := htail m2 T2 hb2 hm2 hroom2 hc2
        exact ⟨m', by simp [hashmapPut, hb, hpos.ne', hgrow, hrun, hb2, hloop], hm', hc'⟩
    · have hroom : m.used + 1 < m.bucketCount := by
        have hload : ¬(m.used + 1) * HASHMAP_MAX_LOAD_DEN ≥ m.bucketCount * HASHMAP_MAX_LOAD_NUM := by
          simpa [hashmapShouldGrow] using hgrow
        simp only [HASHMAP_MAX_LOAD_DEN, HASHMAP_MAX_LOAD_NUM] at hload
        omega
      by_cases hrebuild : hashmapShouldRebuild m = true
      · have htarget : m.bucketCount ≤ 2 ^ 63 := by omega
        have hfits : m.size + 1 < m.bucketCount := by omega
        rcases hashmapRehash_room hm allocOk htarget hfits with
          henomem | ⟨m2, T2, hrun, hb2, hm2, hroom2, hc2⟩
        · right
          simp [hashmapPut, hb, hpos.ne', hgrow, hrebuild, henomem, ENOMEM]
        · left
          obtain ⟨m', hloop, hm', hc'⟩ := htail m2 T2 hb2 hm2 hroom2 hc2
          exact ⟨m', by simp [hashmapPut, hb, hpos.ne', hgrow, hrebuild, hrun, hb2, hloop], hm', hc'⟩
      · left
        obtain ⟨m', hloop, hm', hc'⟩ := htail m T hb hm hroom rfl
        exact ⟨m', by simp [hashmapPut, hb, hpos.ne', hgrow, hrebuild, hloop], hm', hc'⟩

end Calls

end Naos.Hash
