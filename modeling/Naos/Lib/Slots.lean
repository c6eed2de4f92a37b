/-
Greatest elements with a default for the empty set, and aligned slots of naturals.

A search that keeps the best candidate found so far, with a sentinel for "none yet", computes `GreatestOr S d r`:
`r` is the greatest element of `S`, or the default `d` when `S` is empty. A slot of length `len` in `[c, e)` is a
multiple `a` of `k` with `c ≤ a` and `a + len ≤ e` (`slots k c e len`); when `e` and `len` are multiples of `k`, the
greatest one is `e - len`.

Results:
- `GreatestOr.union_above`, `GreatestOr.union_empty`: the best so far after candidates that all lie above the
  earlier ones, or after none;
- `GreatestOr.union_slots`: the best so far after the slots of a range that begins where the earlier candidates end;
- `GreatestOr.mem_of_ne`, `GreatestOr.eq_empty`: a result other than the default is a candidate, and the default
  is the result only for no candidates when it is not one itself;
- `isGreatest_slots`, `slots_eq_empty`: the greatest slot of a range that holds one, and no slot in a shorter range.
-/
import Mathlib

namespace Naos.Slots

section Greatest

variable {α : Type*} [Preorder α] {S G : Set α} {d r g : α}

/-- `r` is the greatest element of `S`, or the default `d` when `S` is empty -/
def GreatestOr (S : Set α) (d r : α) : Prop := IsGreatest S r ∨ (S = ∅ ∧ r = d)

theorem GreatestOr.of_eq_empty (hS : S = ∅) : GreatestOr S d d := Or.inr ⟨hS, rfl⟩

/-- candidates that all lie above the earlier ones: the greatest of them is the best so far -/
theorem GreatestOr.union_above (hg : IsGreatest G g) (hle : ∀ a ∈ S, ∀ b ∈ G, a ≤ b) :
    GreatestOr (S ∪ G) d g := by
  refine Or.inl ⟨Or.inr hg.1, ?_⟩
  rintro a (ha | ha)
  · exact hle a ha g hg.1
  · exact hg.2 ha

/-- no new candidates: the best so far stays -/
theorem GreatestOr.union_empty (h : GreatestOr S d r) (hG : G = ∅) : GreatestOr (S ∪ G) d r := by
  rwa [hG, Set.union_empty]

theorem GreatestOr.mem_of_ne (h : GreatestOr S d r) (hne : r ≠ d) : r ∈ S := by
  rcases h with h | ⟨-, hr⟩
  · exact h.1
  · exact absurd hr hne

theorem GreatestOr.eq_empty (h : GreatestOr S d r) (hd : d ∉ S) (hr : r = d) : S = ∅ := by
  rcases h with h | ⟨hS, -⟩
  · exact absurd (hr ▸ h.1) hd
  · exact hS

end Greatest

/-! ## Aligned slots -/

/-- the multiples `a` of `k` with `[a, a + len)` inside `[c, e)` -/
def slots (k c e len : ℕ) : Set ℕ := {a | a % k = 0 ∧ c ≤ a ∧ a + len ≤ e}

variable {k c e len : ℕ}

/-- the greatest slot ends at the end of the range -/
theorem isGreatest_slots (he : e % k = 0) (hlen : len % k = 0) (hfit : c + len ≤ e) :
    IsGreatest (slots k c e len) (e - len) := by
  refine ⟨⟨Nat.sub_mod_eq_zero_of_mod_eq (he.trans hlen.symm), by omega, by omega⟩, ?_⟩
  rintro a ⟨-, -, ha⟩
  omega

/-- a range shorter than `len` holds no slot -/
theorem slots_eq_empty (h : e < c + len) : slots k c e len = ∅ :=
  Set.eq_empty_iff_forall_notMem.2 fun _ ⟨_, hc, he⟩ => by omega

/-- the best so far after the slots of `[c, e)`, for candidates that end by `c`: the last slot of the range when it
holds one -/
theorem GreatestOr.union_slots {S : Set ℕ} {d r : ℕ} (h : GreatestOr S d r) (hS : ∀ a ∈ S, a + len ≤ c)
    (he : e % k = 0) (hlen : len % k = 0) (hpos : 0 < len) :
    GreatestOr (S ∪ slots k c e len) d (if c < e ∧ len ≤ e - c then e - len else r) := by
  split_ifs with hfit
  · refine GreatestOr.union_above (isGreatest_slots he hlen (by omega)) ?_
    rintro a ha b ⟨-, hb, -⟩
    have := hS a ha
    omega
  · exact h.union_empty (slots_eq_empty (by omega))

end Naos.Slots
