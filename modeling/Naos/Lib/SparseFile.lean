/-
Sparse files.

A sparse file is a size and contents that read as zero at and beyond the size. It is what a store that keeps a file
in pages, and reads a missing page as zeros, promises its readers: a write replaces a range and grows the size to
the end of the range, a resize sets the size and clears what lies at or beyond it, so that a later growth shows
zeros there, and a read returns the contents of a range cut at the size.

The lemmas are those a store that refines a sparse file needs: what each operation does to each position, and a read
as the contents at consecutive positions.
-/
import Mathlib

namespace Sparse

/-- a size, and contents that are zero at and beyond it -/
structure File (α : Type*) [Zero α] where
  size : Nat
  data : Nat → α
  zero_beyond : ∀ x, size ≤ x → data x = 0

namespace File

variable {α : Type*} [Zero α]

@[ext] theorem ext {f g : File α} (hsize : f.size = g.size) (hdata : ∀ x, f.data x = g.data x) : f = g := by
  cases f
  cases g
  simp only at hsize
  subst hsize
  simp only [mk.injEq, true_and]
  exact funext hdata

/-- the file of size 0 -/
def empty : File α := ⟨0, fun _ => 0, fun _ _ => rfl⟩

/-- `bytes` written from `pos` on: the size grows to the end of the range -/
def write (f : File α) (pos : Nat) (bytes : List α) : File α where
  size := max f.size (pos + bytes.length)
  data x := if pos ≤ x ∧ x < pos + bytes.length then bytes.getD (x - pos) 0 else f.data x
  zero_beyond x hx := by
    rw [if_neg (by omega)]
    exact f.zero_beyond x (by omega)

/-- the size set to `n`: what lies at or beyond `n` reads as zero -/
def resize (f : File α) (n : Nat) : File α where
  size := n
  data x := if x < n then f.data x else 0
  zero_beyond x hx := by rw [if_neg (by omega)]

/-- the contents from `pos` on, `n` places at most, cut at the size -/
def read (f : File α) (pos n : Nat) : List α :=
  (List.range (min n (f.size - pos))).map fun k => f.data (pos + k)

@[simp] theorem empty_size : (empty : File α).size = 0 := rfl
@[simp] theorem empty_data (x : Nat) : (empty : File α).data x = 0 := rfl

@[simp] theorem write_size (f : File α) (pos : Nat) (bytes : List α) :
    (f.write pos bytes).size = max f.size (pos + bytes.length) := rfl

theorem write_data (f : File α) (pos : Nat) (bytes : List α) (x : Nat) :
    (f.write pos bytes).data x =
      if pos ≤ x ∧ x < pos + bytes.length then bytes.getD (x - pos) 0 else f.data x := rfl

@[simp] theorem resize_size (f : File α) (n : Nat) : (f.resize n).size = n := rfl

theorem resize_data (f : File α) (n x : Nat) : (f.resize n).data x = if x < n then f.data x else 0 := rfl

/-- a growth changes no contents: what lay beyond the size was zero already -/
theorem resize_data_of_le (f : File α) {n : Nat} (h : f.size ≤ n) (x : Nat) : (f.resize n).data x = f.data x := by
  rw [resize_data]
  split
  · rfl
  · exact (f.zero_beyond x (by omega)).symm

/-- a resize to the size the file has changes nothing -/
@[simp] theorem resize_self (f : File α) : f.resize f.size = f := by
  ext x
  · rfl
  · exact f.resize_data_of_le le_rfl x

@[simp] theorem length_read (f : File α) (pos n : Nat) : (f.read pos n).length = min n (f.size - pos) := by
  simp [read]

end File

end Sparse
