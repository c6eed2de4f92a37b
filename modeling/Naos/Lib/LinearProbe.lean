/-
Open addressing with linear probing.

A table of `n` buckets is a function from bucket numbers to slots; a slot is empty, holds a key with its value, or
is a tombstone left where an entry was deleted. The probe for a key starts at its home bucket and goes forward one
bucket at a time, wrapping at `n`: its `j`-th bucket is `probe n h j`. A table is well formed (`Wf`) when no key is
in two buckets and every entry is reached from its key's home without passing an empty bucket. Then `lookup`, the
value of the first entry of a key, is the value of its one entry, and a search may stop at the first empty bucket
of the probe.

The writes a hash table makes keep it well formed: an entry of a new key put into a bucket that the key's probe
reaches without passing an empty bucket (`Wf.insert`), and any write that keeps every key where it was and
empties no bucket (`Wf.mono`), such as a new value for an entry or a tombstone in its place. `count` counts the
buckets of a kind, and `count_update` says how one write changes it.

A probe loop is read through `Passes`, the buckets a search goes past: `Wf.search_found` and `search_absent` say
where a search stops, and `run_to` takes a loop with fuel `n` to that bucket.
-/
import Naos.Lib.Ring

namespace LinearProbe

/-- a bucket -/
inductive Slot (κ α : Type*) where
  | empty
  | occupied (k : κ) (v : α)
  | tombstone
  deriving DecidableEq

variable {κ α : Type*}

namespace Slot

def isEmpty : Slot κ α → Bool
  | .empty => true
  | _ => false

def isOccupied : Slot κ α → Bool
  | .occupied _ _ => true
  | _ => false

/-- the value a slot holds for the key `k` -/
def entryOf [DecidableEq κ] (k : κ) : Slot κ α → Option α
  | .occupied k' v => if k' = k then some v else none
  | _ => none

@[simp] theorem isEmpty_iff (s : Slot κ α) : s.isEmpty = true ↔ s = .empty := by
  cases s <;> simp [isEmpty]

theorem entryOf_eq_some [DecidableEq κ] {k : κ} {s : Slot κ α} {v : α} :
    s.entryOf k = some v ↔ s = .occupied k v := by
  cases s with
  | empty => simp [entryOf]
  | occupied k' w =>
    by_cases hk : k' = k
    · subst hk
      simp [entryOf, eq_comm]
    · simp [entryOf, hk]
  | tombstone => simp [entryOf]

end Slot

open Slot

/-! ### The probe sequence -/

section Probe

variable {n h : Nat}

/-- the `j`-th bucket of the probe that starts at `h` -/
def probe (n h j : Nat) : Nat := (h + j) % n

theorem probe_lt (hn : 0 < n) (j : Nat) : probe n h j < n := Nat.mod_lt _ hn

theorem probe_zero (hh : h < n) : probe n h 0 = h := Nat.mod_eq_of_lt hh

theorem probe_succ (j : Nat) : probe n h (j + 1) = (probe n h j + 1) % n := by
  rw [probe, probe, Nat.mod_add_mod, Nat.add_assoc]

/-- the first `n` buckets of a probe are all different -/
theorem probe_inj {i j : Nat} (hi : i < n) (hj : j < n) (hij : probe n h i = probe n h j) : i = j := by
  rcases Nat.lt_trichotomy i j with hlt | heq | hgt
  · exact absurd hij (Ring.slot_ne hlt hj)
  · exact heq
  · exact absurd hij.symm (Ring.slot_ne hgt hi)

/-- the probe reaches every bucket within `n` steps -/
theorem exists_probe_eq {p : Nat} (hp : p < n) : ∃ d < n, probe n h d = p := by
  have hn : 0 < n := by omega
  refine ⟨(p + n - h % n) % n, Nat.mod_lt _ hn, ?_⟩
  have hdiv := Nat.mod_add_div h n
  have hlt := Nat.mod_lt h hn
  have hsum : h + (p + n - h % n) = p + n * (h / n + 1) := by
    rw [Nat.mul_add, Nat.mul_one]
    omega
  rw [probe, Nat.add_mod_mod, hsum, Nat.add_mul_mod_self_left, Nat.mod_eq_of_lt hp]

/-- a loop over the probe from `h` that goes on from each bucket of the steps `[j, d)` to the next reaches the bucket
of step `d`, with the fuel it has left -/
theorem skip_to {β : Sort*} (L : Nat → Nat → β) {d : Nat}
    (hpass : ∀ j < d, ∀ f, L (probe n h j) (f + 1) = L (probe n h (j + 1)) f) :
    ∀ k j, j + k = d → ∀ f, L (probe n h j) (f + k) = L (probe n h d) f := by
  intro k
  induction k with
  | zero =>
    intro j hj f
    subst hj
    rfl
  | succ k ih =>
    intro j hj f
    show L (probe n h j) (f + k + 1) = L (probe n h d) f
    rw [hpass j (by omega) (f + k)]
    exact ih (j + 1) (by omega) f

/-- such a loop started at the probe's first bucket with fuel `n` has fuel left when it reaches step `d < n` -/
theorem run_to {β : Sort*} (L : Nat → Nat → β) {d : Nat}
    (hpass : ∀ j < d, ∀ f, L (probe n h j) (f + 1) = L (probe n h (j + 1)) f) (hd : d < n) :
    L (probe n h 0) n = L (probe n h d) (n - d - 1 + 1) := by
  have hrun := skip_to L hpass d 0 (by omega) (n - d - 1 + 1)
  rwa [show n - d - 1 + 1 + d = n by omega] at hrun

end Probe

/-! ### Well-formed tables and lookup -/

section Table

variable {T T' : Nat → Slot κ α} {n q : Nat} {home : κ → Nat} {k : κ} {v : α}

/-- `T` has each key in at most one bucket of `[0, n)`, and the probe from the home of the key of each entry reaches
the entry without passing an empty bucket -/
structure Wf (T : Nat → Slot κ α) (n : Nat) (home : κ → Nat) : Prop where
  unique : ∀ p < n, ∀ q < n, ∀ k v w, T p = .occupied k v → T q = .occupied k w → p = q
  reach : ∀ p < n, ∀ k v, T p = .occupied k v →
    ∃ d < n, probe n (home k) d = p ∧ ∀ j < d, T (probe n (home k) j) ≠ .empty

theorem wf_empty : Wf (fun _ => (.empty : Slot κ α)) n home where
  unique _ _ _ _ _ _ _ h := nomatch h
  reach _ _ _ _ h := nomatch h

/-- the buckets of the first `d` steps of the probe from `h` are neither empty nor an entry of `k`: a search of
`k` passes them -/
def Passes (T : Nat → Slot κ α) (n h : Nat) (k : κ) (d : Nat) : Prop :=
  ∀ j < d, T (probe n h j) ≠ .empty ∧ ∀ w, T (probe n h j) ≠ .occupied k w

/-- the buckets the probe passes before an entry of `k` are not empty, and hold no other entry of `k` -/
theorem Wf.before_entry (hw : Wf T n home) {p d j : Nat} {k : κ} {v : α} (hp : p < n) (hT : T p = .occupied k v)
    (hd : d < n) (hpd : probe n (home k) d = p) (hpath : ∀ j < d, T (probe n (home k) j) ≠ .empty) (hj : j < d) :
    T (probe n (home k) j) ≠ .empty ∧ ∀ w, T (probe n (home k) j) ≠ .occupied k w := by
  refine ⟨hpath j hj, fun w hw' => ?_⟩
  have hpos : 0 < n := by omega
  have hsame := hw.unique _ (probe_lt hpos j) p hp k w v hw' hT
  rw [← hpd] at hsame
  exact absurd (probe_inj (by omega) hd hsame) (by omega)

/-- a write that keeps every key where it was and empties no bucket keeps the table well formed -/
theorem Wf.mono (hw : Wf T n home) (hkeys : ∀ p < n, ∀ k v, T' p = .occupied k v → ∃ w, T p = .occupied k w)
    (hne : ∀ p < n, T p ≠ .empty → T' p ≠ .empty) : Wf T' n home where
  unique p hp q hq k v w hTp hTq := by
    obtain ⟨v', hv'⟩ := hkeys p hp k v hTp
    obtain ⟨w', hw'⟩ := hkeys q hq k w hTq
    exact hw.unique p hp q hq k v' w' hv' hw'
  reach p hp k v hTp := by
    obtain ⟨v', hv'⟩ := hkeys p hp k v hTp
    obtain ⟨d, hd, hpd, hpath⟩ := hw.reach p hp k v' hv'
    exact ⟨d, hd, hpd, fun j hj => hne _ (probe_lt (by omega) j) (hpath j hj)⟩

/-- an entry of a key the table does not hold, put into a bucket that the key's probe reaches without passing an
empty bucket, keeps the table well formed -/
theorem Wf.insert (hw : Wf T n home) {q d : Nat} {k : κ} (v : α) (habs : ∀ p < n, ∀ w, T p ≠ .occupied k w)
    (hd : d < n) (hqd : probe n (home k) d = q) (hpath : ∀ j < d, T (probe n (home k) j) ≠ .empty) :
    Wf (Function.update T q (.occupied k v)) n home where
  unique p hp p' hp' k' v₁ v₂ h₁ h₂ := by
    by_cases hpq : p = q <;> by_cases hpq' : p' = q
    · rw [hpq, hpq']
    · rw [hpq, Function.update_self] at h₁
      rw [Function.update_of_ne hpq'] at h₂
      cases h₁
      exact absurd h₂ (habs p' hp' v₂)
    · rw [hpq', Function.update_self] at h₂
      rw [Function.update_of_ne hpq] at h₁
      cases h₂
      exact absurd h₁ (habs p hp v₁)
    · rw [Function.update_of_ne hpq] at h₁
      rw [Function.update_of_ne hpq'] at h₂
      exact hw.unique p hp p' hp' k' v₁ v₂ h₁ h₂
  reach p hp k' v' hT := by
    have hpos : 0 < n := by omega
    by_cases hpq : p = q
    · subst hpq
      rw [Function.update_self] at hT
      cases hT
      refine ⟨d, hd, hqd, fun j hj => ?_⟩
      have hne : probe n (home k) j ≠ p := by
        intro hjq
        rw [← hqd] at hjq
        exact absurd (probe_inj (by omega) hd hjq) (by omega)
      rw [Function.update_of_ne hne]
      exact hpath j hj
    · rw [Function.update_of_ne hpq] at hT
      obtain ⟨d', hd', hpd', hpath'⟩ := hw.reach p hp k' v' hT
      refine ⟨d', hd', hpd', fun j hj => ?_⟩
      by_cases hjq : probe n (home k') j = q
      · rw [hjq, Function.update_self]
        exact nofun
      · rw [Function.update_of_ne hjq]
        exact hpath' j hj

variable [DecidableEq κ]

/-- the value of the first entry of `k` in the buckets `[0, n)` -/
def lookup (T : Nat → Slot κ α) (n : Nat) (k : κ) : Option α :=
  (List.range n).findSome? fun p => (T p).entryOf k

theorem exists_of_lookup_eq_some {k : κ} {v : α} (hl : lookup T n k = some v) : ∃ p < n, T p = .occupied k v := by
  obtain ⟨p, hp, hpv⟩ := List.exists_of_findSome?_eq_some hl
  exact ⟨p, List.mem_range.mp hp, Slot.entryOf_eq_some.mp hpv⟩

theorem lookup_eq_none_iff {k : κ} : lookup T n k = none ↔ ∀ p < n, ∀ v, T p ≠ .occupied k v := by
  simp only [lookup, List.findSome?_eq_none_iff, List.mem_range]
  constructor
  · intro h p hp v hT
    have := h p hp
    rw [hT, Slot.entryOf] at this
    simp at this
  · intro h p hp
    cases hs : (T p).entryOf k with
    | none => rfl
    | some v => exact absurd (Slot.entryOf_eq_some.mp hs) (h p hp v)

/-- in a well-formed table a key's one entry is the value of its lookup -/
theorem Wf.lookup_eq_some (hw : Wf T n home) {p : Nat} {k : κ} {v : α} (hp : p < n) (hT : T p = .occupied k v) :
    lookup T n k = some v := by
  cases hl : lookup T n k with
  | none => exact absurd hT ((lookup_eq_none_iff).mp hl p hp v)
  | some w =>
    obtain ⟨q, hq, hTq⟩ := exists_of_lookup_eq_some hl
    rw [hw.unique q hq p hp k w v hTq hT, hT] at hTq
    cases hTq
    rfl

/-- the probe of a key that has an entry passes buckets that are neither empty nor an entry of the key until it
meets the entry -/
theorem Wf.search_found (hw : Wf T n home) {k : κ} {v : α} (hl : lookup T n k = some v) :
    ∃ d < n, Passes T n (home k) k d ∧ T (probe n (home k) d) = .occupied k v := by
  obtain ⟨p, hp, hT⟩ := exists_of_lookup_eq_some hl
  obtain ⟨d, hd, hpd, hpath⟩ := hw.reach p hp k v hT
  exact ⟨d, hd, fun j hj => hw.before_entry hp hT hd hpd hpath hj, hpd ▸ hT⟩

/-- the probe of a key that has no entry, in a table with an empty bucket, passes buckets that are neither empty
nor an entry of the key until it meets an empty one -/
theorem search_absent {k : κ} (hl : lookup T n k = none) (hempty : ∃ p < n, T p = .empty) (h : Nat) :
    ∃ d < n, Passes T n h k d ∧ T (probe n h d) = .empty := by
  obtain ⟨p, hp, hTp⟩ := hempty
  obtain ⟨e, he, hep⟩ := exists_probe_eq (h := h) hp
  have hex : ∃ d, d < n ∧ (T (probe n h d)).isEmpty = true := ⟨e, he, by simp [hep, hTp]⟩
  have hpos : 0 < n := by omega
  refine ⟨Nat.find hex, (Nat.find_spec hex).1, fun j hj => ⟨?_, ?_⟩, by simpa using (Nat.find_spec hex).2⟩
  · intro hTj
    exact Nat.find_min hex hj ⟨by have := (Nat.find_spec hex).1; omega, by simp [hTj]⟩
  · exact (lookup_eq_none_iff).mp hl _ (probe_lt hpos j)

/-- a write that neither adds nor removes an entry of `k` keeps its lookup -/
theorem lookup_update_of_entryOf {q : Nat} {s : Slot κ α} {k : κ} (hs : s.entryOf k = none)
    (hq : (T q).entryOf k = none) : lookup (Function.update T q s) n k = lookup T n k := by
  unfold lookup
  congr 1
  funext p
  by_cases hpq : p = q
  · rw [hpq, Function.update_self, hs, hq]
  · rw [Function.update_of_ne hpq]

/-- an entry of `k` written into a bucket that holds no other key's entry, in a table that stays well formed, is
the lookup of `k` -/
theorem lookup_update_occupied (hw : Wf (Function.update T q (.occupied k v)) n home) (hq : q < n)
    (hother : ∀ k', k' ≠ k → (T q).entryOf k' = none) :
    lookup (Function.update T q (.occupied k v)) n = Function.update (lookup T n) k (some v) := by
  funext k'
  by_cases hk : k' = k
  · subst hk
    rw [Function.update_self]
    exact hw.lookup_eq_some hq (Function.update_self _ _ _)
  · rw [Function.update_of_ne hk]
    exact lookup_update_of_entryOf (by simp [Slot.entryOf, Ne.symm hk]) (hother k' hk)

/-- a tombstone in the place of the entry of `k` removes `k` and no other key -/
theorem Wf.lookup_update_tombstone (hw : Wf T n home) (hq : q < n) (hT : T q = .occupied k v) :
    lookup (Function.update T q .tombstone) n = Function.update (lookup T n) k none := by
  funext k'
  by_cases hk : k' = k
  · subst hk
    rw [Function.update_self, lookup_eq_none_iff]
    intro p hp w hTp
    by_cases hpq : p = q
    · rw [hpq, Function.update_self] at hTp
      cases hTp
    · rw [Function.update_of_ne hpq] at hTp
      exact hpq (hw.unique p hp q hq k' w v hTp hT)
  · rw [Function.update_of_ne hk]
    exact lookup_update_of_entryOf rfl (by simp [hT, Slot.entryOf, Ne.symm hk])

theorem lookup_empty (k : κ) : lookup (fun _ => (.empty : Slot κ α)) n k = none :=
  (lookup_eq_none_iff).mpr fun _ _ _ => nofun

/-- `lookup` over one more bucket -/
theorem lookup_succ (k : κ) :
    lookup T (n + 1) k = (lookup T n k).or ((T n).entryOf k) := by
  simp only [lookup, List.range_succ, List.findSome?_append, List.findSome?_singleton]

/-- one more bucket that is not an entry adds no key -/
theorem lookup_succ_of_not_occupied (hT : (T n).isOccupied = false) : lookup T (n + 1) = lookup T n := by
  funext k'
  rw [lookup_succ]
  cases hs : T n with
  | occupied _ _ => simp [hs, Slot.isOccupied] at hT
  | _ => simp [Slot.entryOf]

/-- one more bucket with the first entry of `k` adds `k` -/
theorem lookup_succ_of_occupied (hT : T n = .occupied k v) (hl : lookup T n k = none) :
    lookup T (n + 1) = Function.update (lookup T n) k (some v) := by
  funext k'
  rw [lookup_succ, hT]
  by_cases hk : k' = k
  · subst hk
    simp [hl, Slot.entryOf]
  · simp [hk, Ne.symm hk, Slot.entryOf]

end Table

/-! ### Counting buckets -/

section Count

variable {T T' : Nat → Slot κ α} {n : Nat} (P : Slot κ α → Bool)

/-- the number of buckets of `[0, n)` whose slot satisfies `P` -/
def count (P : Slot κ α → Bool) (T : Nat → Slot κ α) (n : Nat) : Nat :=
  (List.range n).countP fun p => P (T p)

@[simp] theorem count_zero : count P T 0 = 0 := rfl

theorem count_succ : count P T (n + 1) = count P T n + if P (T n) then 1 else 0 := by
  simp only [count, List.range_succ, List.countP_append, List.countP_singleton]

theorem count_congr (h : ∀ p < n, T' p = T p) : count P T' n = count P T n := by
  unfold count
  apply List.countP_congr
  intro p hp
  rw [h p (List.mem_range.mp hp)]

theorem count_mono {i : Nat} (hi : i ≤ n) : count P T i ≤ count P T n := by
  induction n with
  | zero => rw [Nat.le_zero.mp hi]
  | succ n ih =>
    rcases Nat.lt_succ_iff_lt_or_eq.mp (Nat.lt_succ_of_le hi) with hlt | rfl
    · rw [count_succ]
      exact Nat.le_add_right_of_le (ih (by omega))
    · exact le_refl _

/-- a write into one bucket changes the count by what it puts in and takes out -/
theorem count_update {q : Nat} (s : Slot κ α) (hq : q < n) :
    count P (Function.update T q s) n + (if P (T q) then 1 else 0) = count P T n + if P s then 1 else 0 := by
  induction n with
  | zero => omega
  | succ n ih =>
    rw [count_succ, count_succ]
    rcases Nat.lt_succ_iff_lt_or_eq.mp hq with hlt | rfl
    · rw [Function.update_of_ne (by omega)]
      have := ih hlt
      omega
    · have hsame : count P (Function.update T q s) q = count P T q :=
        count_congr P fun p hp => by rw [Function.update_of_ne (by omega)]
      rw [hsame, Function.update_self]
      omega

/-- a write that keeps whether the bucket satisfies `P` keeps the count -/
theorem count_update_of_eq {q : Nat} {s : Slot κ α} (hq : q < n) (hP : P s = P (T q)) :
    count P (Function.update T q s) n = count P T n := by
  have h := count_update P (T := T) s hq
  rw [hP] at h
  omega

/-- when fewer than `n` buckets satisfy `P`, one does not -/
theorem exists_not_of_count_lt (h : count P T n < n) : ∃ p < n, P (T p) = false := by
  by_contra hall
  have hall' : ∀ p ∈ List.range n, P (T p) = true := fun p hp => by
    cases hP : P (T p)
    · exact absurd ⟨p, List.mem_range.mp hp, hP⟩ hall
    · rfl
  have hlen : count P T n = n := by
    rw [count, List.countP_eq_length.mpr hall', List.length_range]
  omega

/-- when no bucket satisfies `P`, none does -/
theorem count_eq_zero (h : count P T n = 0) {p : Nat} (hp : p < n) : P (T p) = false := by
  have := List.countP_eq_zero.mp h p (List.mem_range.mpr hp)
  simpa using this

end Count

end LinearProbe
