/-
Acyclic relations: no element reaches itself by one or more steps. Adding an edge `a → b` keeps a relation acyclic
when `b` does not reach `a`, and removing edges keeps it acyclic.

Results:
- `transGen_addEdge`: a path of the relation with the new edge is a path of the old one, or runs through the new edge
  from a point reaching `a` to a point `b` reaches;
- `Acyclic.addEdge`, `Acyclic.mono`, `acyclic_of_forall_not`.
-/
import Mathlib

namespace AcyclicRel

open Relation

variable {α : Type*} {r r' : α → α → Prop} {a b : α}

/-- no element reaches itself -/
def Acyclic (r : α → α → Prop) : Prop := ∀ x, ¬TransGen r x x

/-- the relation with the edge `a → b` added -/
def addEdge (r : α → α → Prop) (a b : α) : α → α → Prop := fun x y => r x y ∨ (x = a ∧ y = b)

theorem acyclic_of_forall_not (h : ∀ x y, ¬r x y) : Acyclic r := by
  intro x hx
  obtain ⟨y, hxy, -⟩ := TransGen.head'_iff.1 hx
  exact h x y hxy

theorem Acyclic.mono (h : Acyclic r) (hsub : ∀ x y, r' x y → r x y) : Acyclic r' :=
  fun x hx => h x (TransGen.mono hsub x x hx)

/-- when `b` does not reach `a`, a path that takes the new edge takes it once -/
theorem transGen_addEdge (hb : ¬ReflTransGen r b a) {x y : α} (h : TransGen (addEdge r a b) x y) :
    TransGen r x y ∨ (ReflTransGen r x a ∧ ReflTransGen r b y) := by
  induction h with
  | single hxy =>
    rcases hxy with hxy | ⟨rfl, rfl⟩
    · exact Or.inl (TransGen.single hxy)
    · exact Or.inr ⟨ReflTransGen.refl, ReflTransGen.refl⟩
  | tail _ hyz ih =>
    rcases hyz with hyz | ⟨rfl, rfl⟩
    · rcases ih with ih | ⟨hxa, hby⟩
      · exact Or.inl (ih.tail hyz)
      · exact Or.inr ⟨hxa, hby.tail hyz⟩
    · rcases ih with ih | ⟨-, hba⟩
      · exact Or.inr ⟨ih.to_reflTransGen, ReflTransGen.refl⟩
      · exact absurd hba hb

theorem Acyclic.addEdge (h : Acyclic r) (hb : ¬ReflTransGen r b a) : Acyclic (addEdge r a b) := by
  intro x hx
  rcases transGen_addEdge hb hx with hx | ⟨hxa, hbx⟩
  · exact h x hx
  · exact hb (hbx.trans hxa)

end AcyclicRel
