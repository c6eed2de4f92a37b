/-
Finite families of half-open intervals of naturals that do not overlap, and the partial function on points that
such a family stands for: a point lies in at most one interval and takes the value that interval gives it.

An interval is anything with a lower and an upper end, `lo x` and `hi x`. `Holds lo hi x a`: the interval `x`
holds the point `a`. `Apart lo hi x y`: `x` and `y` do not overlap. `lookup lo hi f L a`: the value `f x a` of the
first interval `x` of `L` that holds `a`. `covered lo hi L`: the points the intervals of `L` hold.

Results:
- `eq_of_holds`: in a family that is pairwise apart, two intervals that hold one point are one;
- `lookup_eq_some_iff`, `lookup_eq_none_iff`: in such a family, `lookup` gives the value of the interval that holds
  the point, wherever it stands, so it does not depend on the order of the family (`lookup_perm`), and a map that
  keeps the ends is looked through (`lookup_map`), and so is a map of the values (`lookup_map_value`).
-/
import Mathlib

namespace Intervals

variable {ι β : Type} (lo hi : ι → Nat)

/-- the interval `x` holds the point `a` -/
def Holds (x : ι) (a : Nat) : Prop := lo x ≤ a ∧ a < hi x

instance (x : ι) (a : Nat) : Decidable (Holds lo hi x a) := inferInstanceAs (Decidable (_ ∧ _))

/-- the intervals `x` and `y` do not overlap -/
def Apart (x y : ι) : Prop := hi x ≤ lo y ∨ hi y ≤ lo x

/-- the value the family gives a point: that of the first interval that holds it -/
def lookup (f : ι → Nat → β) (L : List ι) (a : Nat) : Option β :=
  (L.find? fun x => decide (Holds lo hi x a)).map fun x => f x a

variable {lo hi} {x y : ι} {a : Nat} {L L' : List ι} {f : ι → Nat → β}

instance : Std.Symm (Apart lo hi) := ⟨fun _ _ h => h.symm⟩

theorem not_holds_of_apart (hxy : Apart lo hi x y) (hx : Holds lo hi x a) : ¬ Holds lo hi y a := by
  unfold Apart at hxy
  unfold Holds at hx ⊢
  omega

/-- a point lies in at most one interval of a family that is pairwise apart -/
theorem eq_of_holds (hd : L.Pairwise (Apart lo hi)) (hx : x ∈ L) (hy : y ∈ L) (hxa : Holds lo hi x a)
    (hya : Holds lo hi y a) : x = y := by
  by_contra hne
  exact not_holds_of_apart (hd.forall hx hy hne) hxa hya

@[simp] theorem lookup_nil : lookup lo hi f [] a = none := rfl

theorem lookup_cons : lookup lo hi f (x :: L) a = if Holds lo hi x a then some (f x a) else lookup lo hi f L a := by
  by_cases hx : Holds lo hi x a <;> simp [lookup, hx]

theorem lookup_eq_none_iff : lookup lo hi f L a = none ↔ ∀ x ∈ L, ¬ Holds lo hi x a := by
  simp [lookup, List.find?_eq_none]

/-- in a family that is pairwise apart, a point takes the value of the one interval that holds it -/
theorem lookup_eq_some_iff (hd : L.Pairwise (Apart lo hi)) {w : β} :
    lookup lo hi f L a = some w ↔ ∃ x ∈ L, Holds lo hi x a ∧ f x a = w := by
  constructor
  · intro h
    obtain ⟨x, hfind, rfl⟩ := Option.map_eq_some_iff.1 h
    exact ⟨x, List.mem_of_find?_eq_some hfind, by simpa using List.find?_some hfind, rfl⟩
  · rintro ⟨x, hx, hxa, rfl⟩
    cases hfind : L.find? fun x => decide (Holds lo hi x a) with
    | none => exact absurd (List.find?_eq_none.1 hfind x hx) (by simpa using hxa)
    | some y =>
      have hya : Holds lo hi y a := by simpa using List.find?_some hfind
      rw [lookup, hfind, eq_of_holds hd (List.mem_of_find?_eq_some hfind) hx hya hxa]
      rfl

/-- two families that are pairwise apart and hold the same intervals give every point the same value -/
theorem lookup_congr (hd : L.Pairwise (Apart lo hi)) (hd' : L'.Pairwise (Apart lo hi)) (hmem : ∀ x, x ∈ L ↔ x ∈ L') :
    lookup lo hi f L a = lookup lo hi f L' a := by
  cases h : lookup lo hi f L' a with
  | none =>
    rw [lookup_eq_none_iff] at h ⊢
    exact fun x hx => h x ((hmem x).1 hx)
  | some w =>
    obtain ⟨x, hx, hxa, hw⟩ := (lookup_eq_some_iff hd').1 h
    exact (lookup_eq_some_iff hd).2 ⟨x, (hmem x).2 hx, hxa, hw⟩

theorem lookup_perm (hd : L.Pairwise (Apart lo hi)) (hp : L.Perm L') : lookup lo hi f L a = lookup lo hi f L' a :=
  lookup_congr hd (hp.pairwise hd fun h => h.symm) fun _ => hp.mem_iff

/-- a map that keeps the ends of the intervals: the family is looked up through it -/
theorem lookup_map {κ : Type} {lo' hi' : κ → Nat} {g : κ → ι} {L : List κ} (hlo : ∀ x, lo (g x) = lo' x)
    (hhi : ∀ x, hi (g x) = hi' x) :
    lookup lo hi f (L.map g) a = lookup lo' hi' (fun x => f (g x)) L a := by
  simp only [lookup, List.find?_map, Option.map_map]
  congr 1
  congr 1
  funext x
  simp only [Function.comp_apply, Holds, hlo, hhi]
  exact decide_eq_decide.2 Iff.rfl

/-- values that change by one map on every interval that holds the point: the looked-up value changes by it -/
theorem lookup_map_value {γ : Type} {f' : ι → Nat → γ} {g : β → γ}
    (h : ∀ x ∈ L, Holds lo hi x a → f' x a = g (f x a)) :
    lookup lo hi f' L a = (lookup lo hi f L a).map g := by
  induction L with
  | nil => rfl
  | cons x L ih =>
    rw [lookup_cons, lookup_cons]
    by_cases hx : Holds lo hi x a
    · rw [if_pos hx, if_pos hx, h x List.mem_cons_self hx]
      rfl
    · rw [if_neg hx, if_neg hx, ih fun y hy => h y (List.mem_cons_of_mem x hy)]

end Intervals
