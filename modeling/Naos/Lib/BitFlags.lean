/-
Flag words: single-bit masks `1 <<< k` in a bit vector, and the tests `x & mask != 0` that C code makes on them.

Results:
- `getLsbD_bit`: the bits of a single-bit mask;
- `and_bit_eq_zero_iff`, `and_bit_ne_zero`: a flag test reads one bit;
- `and_not_eq_zero_iff`: a mask inside another, bit by bit.
-/
import Mathlib

namespace BitFlags

variable {w : Nat}

@[simp] theorem getLsbD_bit (k i : Nat) : (1#w <<< k).getLsbD i = (decide (i < w) && decide (i = k)) := by
  simp only [BitVec.getLsbD_shiftLeft, BitVec.getLsbD_one]
  grind

theorem and_bit_eq_zero_iff (x : BitVec w) {k : Nat} (hk : k < w) : x &&& 1#w <<< k = 0#w ↔ x.getLsbD k = false := by
  constructor
  · intro h0
    have hbit := congrArg (fun v => v.getLsbD k) h0
    simp only [BitVec.getLsbD_and, getLsbD_bit, BitVec.getLsbD_zero, hk, decide_true, Bool.and_true] at hbit
    exact hbit
  · intro hb
    apply BitVec.eq_of_getLsbD_eq
    intro i hi
    simp only [BitVec.getLsbD_and, getLsbD_bit, BitVec.getLsbD_zero, hi, decide_true, Bool.true_and]
    by_cases hik : i = k
    · subst hik
      simp [hb]
    · simp [hik]

@[simp] theorem and_bit_ne_zero (x : BitVec w) {k : Nat} (hk : k < w) :
    (x &&& 1#w <<< k != 0#w) = x.getLsbD k := by
  have key := and_bit_eq_zero_iff x hk
  cases hb : x.getLsbD k
  · simpa using key.2 hb
  · have hne : ¬ x &&& 1#w <<< k = 0#w := fun h0 => by simp [key.1 h0] at hb
    simpa using hne

/-- `x & ~y == 0`: every bit of `x` is a bit of `y` -/
theorem and_not_eq_zero_iff (x y : BitVec w) :
    x &&& ~~~y = 0#w ↔ ∀ i, x.getLsbD i = true → y.getLsbD i = true := by
  constructor
  · intro h i hx
    have hi : i < w := BitVec.lt_of_getLsbD hx
    have hbit := congrArg (fun v => v.getLsbD i) h
    simp only [BitVec.getLsbD_and, BitVec.getLsbD_not, hi, decide_true, Bool.true_and, BitVec.getLsbD_zero, hx]
      at hbit
    simpa using hbit
  · intro h
    apply BitVec.eq_of_getLsbD_eq
    intro i hi
    simp only [BitVec.getLsbD_and, BitVec.getLsbD_not, hi, decide_true, Bool.true_and, BitVec.getLsbD_zero]
    cases hx : x.getLsbD i
    · rfl
    · simp [h i hx]

end BitFlags
