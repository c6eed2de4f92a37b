/-
Bitmaps packed in bytes.

A block of bytes read as a bitmap keeps bit `i` as bit `i % 8` of byte `i / 8`: the test is `b[i >> 3] & (1 << (i &
7))`, a set ORs that mask into the byte and a clear ANDs its complement. On top of these, a set over a range of bits
and the count of clear bits below a bound, which is what an allocator keeps in a group descriptor.

The lemmas say what each operation does to each bit (`testBit_setBit`, `testBit_clearBit`, `testBit_setRange`), that
a bitmap is its bits (`testBit_ext`), that the count reads only the bits below its bound (`countFree_congr`), and how
it moves when bits below the bound are set or cleared (`countFree_setRange`, `countFree_clearBit`). A marking, a
function built of sets, ORs a fixed set of bits into any bitmap, the bits it sets in the all-clear one (`SetsBits`);
compositions, conditionals and folds of markings are markings.
-/
import Mathlib
import Naos.Lib.BitFlags

namespace ByteBitmap

/-- bit `i` of the bitmap: `(b[i >> 3] & (1 << (i & 7))) != 0` -/
def testBit (b : Nat → BitVec 8) (i : Nat) : Bool := b (i / 8) &&& 1#8 <<< (i % 8) != 0#8

/-- `b[i >> 3] |= 1 << (i & 7)` -/
def setBit (b : Nat → BitVec 8) (i : Nat) : Nat → BitVec 8 :=
  Function.update b (i / 8) (b (i / 8) ||| 1#8 <<< (i % 8))

/-- `b[i >> 3] &= ~(1 << (i & 7))` -/
def clearBit (b : Nat → BitVec 8) (i : Nat) : Nat → BitVec 8 :=
  Function.update b (i / 8) (b (i / 8) &&& ~~~(1#8 <<< (i % 8)))

/-- the bits `lo, lo + 1, ..., lo + n - 1` set, one after the other -/
def setRange (b : Nat → BitVec 8) (lo : Nat) : Nat → Nat → BitVec 8
  | 0 => b
  | n + 1 => setRange (setBit b lo) (lo + 1) n

/-- the all-clear bitmap, as `calloc` returns it -/
def empty : Nat → BitVec 8 := fun _ => 0#8

/-- every bit set -/
def full : Nat → BitVec 8 := fun _ => BitVec.allOnes 8

/-- the clear bits below `n`, counted as the C loop counts them -/
def countFree (b : Nat → BitVec 8) : Nat → Nat
  | 0 => 0
  | n + 1 => countFree b n + if testBit b n then 0 else 1

theorem setRange_zero (b : Nat → BitVec 8) (lo : Nat) : setRange b lo 0 = b := rfl

theorem setRange_succ (b : Nat → BitVec 8) (lo n : Nat) : setRange b lo (n + 1) = setRange (setBit b lo) (lo + 1) n :=
  rfl

theorem countFree_succ (b : Nat → BitVec 8) (n : Nat) :
    countFree b (n + 1) = countFree b n + if testBit b n then 0 else 1 := rfl

variable {b : Nat → BitVec 8}

theorem testBit_eq (b : Nat → BitVec 8) (i : Nat) : testBit b i = (b (i / 8)).getLsbD (i % 8) :=
  BitFlags.and_bit_ne_zero (b (i / 8)) (Nat.mod_lt i (by decide))

/-- two bits lie in one byte at one place only if they are the same bit -/
theorem eq_of_div_mod {i j : Nat} (hdiv : j / 8 = i / 8) (hmod : j % 8 = i % 8) : j = i := by
  omega

@[simp] theorem testBit_setBit (b : Nat → BitVec 8) (i j : Nat) :
    testBit (setBit b i) j = (decide (j = i) || testBit b j) := by
  rw [testBit_eq, testBit_eq, setBit]
  by_cases hdiv : j / 8 = i / 8
  · rw [hdiv, Function.update_self, BitVec.getLsbD_or, BitFlags.getLsbD_bit, ← hdiv]
    by_cases hmod : j % 8 = i % 8
    · simp [eq_of_div_mod hdiv hmod, Nat.mod_lt i (by decide : 8 > 0)]
    · have hne : j ≠ i := fun h => hmod (h ▸ rfl)
      simp [hmod, hne]
  · have hne : j ≠ i := fun h => hdiv (h ▸ rfl)
    rw [Function.update_of_ne hdiv]
    simp [hne]

@[simp] theorem testBit_clearBit (b : Nat → BitVec 8) (i j : Nat) :
    testBit (clearBit b i) j = (!decide (j = i) && testBit b j) := by
  rw [testBit_eq, testBit_eq, clearBit]
  by_cases hdiv : j / 8 = i / 8
  · rw [hdiv, Function.update_self, BitVec.getLsbD_and, BitVec.getLsbD_not, BitFlags.getLsbD_bit, ← hdiv]
    by_cases hmod : j % 8 = i % 8
    · simp [eq_of_div_mod hdiv hmod, Nat.mod_lt i (by decide : 8 > 0)]
    · have hne : j ≠ i := fun h => hmod (h ▸ rfl)
      simp [hmod, hne, Nat.mod_lt j (by decide : 8 > 0)]
  · have hne : j ≠ i := fun h => hdiv (h ▸ rfl)
    rw [Function.update_of_ne hdiv]
    simp [hne]

theorem testBit_setRange (b : Nat → BitVec 8) (lo n j : Nat) :
    testBit (setRange b lo n) j = (decide (lo ≤ j ∧ j < lo + n) || testBit b j) := by
  induction n generalizing b lo with
  | zero =>
    rw [setRange_zero]
    simp
  | succ n ih =>
    rw [setRange_succ, ih, testBit_setBit]
    by_cases hj : j = lo
    · simp [hj]
    · have hiff : (lo + 1 ≤ j ∧ j < lo + 1 + n) ↔ (lo ≤ j ∧ j < lo + (n + 1)) := by omega
      have hd : decide (lo + 1 ≤ j ∧ j < lo + 1 + n) = decide (lo ≤ j ∧ j < lo + (n + 1)) := by
        simp only [hiff]
      rw [hd]
      simp [hj]

@[simp] theorem testBit_empty (j : Nat) : testBit empty j = false := by
  simp [testBit, empty]

@[simp] theorem testBit_full (j : Nat) : testBit full j = true := by
  rw [testBit_eq, full, BitVec.getLsbD_allOnes]
  exact decide_eq_true (Nat.mod_lt j (by decide))

/-- a bitmap is its bits: bit `8 * k + i` is bit `i` of byte `k` -/
theorem testBit_ext {a b : Nat → BitVec 8} (h : ∀ j, testBit a j = testBit b j) : a = b := by
  funext k
  apply BitVec.eq_of_getLsbD_eq
  intro i hi
  have hj := h (8 * k + i)
  rw [testBit_eq, testBit_eq, show (8 * k + i) / 8 = k by omega, show (8 * k + i) % 8 = i by omega] at hj
  exact hj

/-! ## Markings -/

/-- `f` ORs a fixed set of bits into every bitmap: the bits it sets in the all-clear one -/
def SetsBits (f : (Nat → BitVec 8) → Nat → BitVec 8) : Prop :=
  ∀ b j, testBit (f b) j = (testBit b j || testBit (f empty) j)

theorem setsBits_id : SetsBits id := by
  intro b j
  simp

theorem setsBits_setBit (i : Nat) : SetsBits (setBit · i) := by
  intro b j
  simp [Bool.or_comm]

theorem setsBits_setRange (lo n : Nat) : SetsBits (setRange · lo n) := by
  intro b j
  simp [testBit_setRange, Bool.or_comm]

theorem SetsBits.comp {f g : (Nat → BitVec 8) → Nat → BitVec 8} (hf : SetsBits f) (hg : SetsBits g) :
    SetsBits (fun b => g (f b)) := by
  intro b j
  rw [hg, hf, hg (f empty), hf empty, testBit_empty, Bool.false_or, Bool.or_assoc]

theorem SetsBits.ite (c : Prop) [Decidable c] {f g : (Nat → BitVec 8) → Nat → BitVec 8} (hf : SetsBits f)
    (hg : SetsBits g) : SetsBits (fun b => if c then f b else g b) := by
  intro b j
  by_cases hc : c
  · simp only [hc, if_true]
    exact hf b j
  · simp only [hc, if_false]
    exact hg b j

/-- a loop of markings, one per element, is a marking -/
theorem SetsBits.foldl {α : Type*} (step : α → (Nat → BitVec 8) → Nat → BitVec 8) (hstep : ∀ x, SetsBits (step x)) :
    ∀ l : List α, SetsBits (fun b => l.foldl (fun b x => step x b) b) := by
  intro l
  induction l with
  | nil => exact setsBits_id
  | cons x l ih => exact (hstep x).comp ih

/-- a loop of markings sets a bit that one of its steps sets whatever it is given -/
theorem SetsBits.foldl_of_mem {α : Type*} (step : α → (Nat → BitVec 8) → Nat → BitVec 8)
    (hstep : ∀ x, SetsBits (step x)) {x : α} {j : Nat} (hj : ∀ b, testBit (step x b) j = true) :
    ∀ l : List α, x ∈ l → ∀ b, testBit (l.foldl (fun b x => step x b) b) j = true := by
  intro l
  induction l with
  | nil => simp
  | cons y l ih =>
    intro hmem b
    rw [List.foldl_cons]
    rcases List.mem_cons.1 hmem with rfl | hmem
    · rw [SetsBits.foldl step hstep l, hj, Bool.true_or]
    · exact ih hmem _

/-- setting a bit that may be named: none leaves the bitmap -/
theorem setsBits_optionSet (o : Option Nat) :
    SetsBits (fun b => match o with
      | some i => setBit b i
      | none => b) := by
  cases o with
  | none => exact setsBits_id
  | some i => exact setsBits_setBit i

/-- a marking keeps every bit that was set -/
theorem SetsBits.mono {f : (Nat → BitVec 8) → Nat → BitVec 8} (hf : SetsBits f) {b : Nat → BitVec 8} {j : Nat}
    (h : testBit b j = true) : testBit (f b) j = true := by
  rw [hf, h, Bool.true_or]

/-- the count reads the bits below its bound only -/
theorem countFree_congr {b b' : Nat → BitVec 8} {n : Nat} (h : ∀ i < n, testBit b i = testBit b' i) :
    countFree b n = countFree b' n := by
  induction n with
  | zero => rfl
  | succ n ih =>
    rw [countFree_succ, countFree_succ, ih fun i hi => h i (by omega), h n (by omega)]

theorem countFree_empty (n : Nat) : countFree empty n = n := by
  induction n with
  | zero => rfl
  | succ n ih => rw [countFree_succ, ih, testBit_empty, if_neg Bool.false_ne_true]

theorem countFree_full (n : Nat) : countFree full n = 0 := by
  induction n with
  | zero => rfl
  | succ n ih => rw [countFree_succ, ih, testBit_full, if_pos rfl]

/-- setting a bit below the bound that was clear takes one from the count -/
theorem countFree_setBit {i n : Nat} (hi : i < n) (hclear : testBit b i = false) :
    countFree (setBit b i) n + 1 = countFree b n := by
  induction n with
  | zero => omega
  | succ n ih =>
    rw [countFree_succ, countFree_succ, testBit_setBit]
    by_cases hin : i = n
    · subst hin
      have hbelow : countFree (setBit b i) i = countFree b i :=
        countFree_congr fun k hk => by simp [Nat.ne_of_lt hk]
      simp [hbelow, hclear]
    · have hn : n ≠ i := Ne.symm hin
      rw [← ih (by omega)]
      simp only [hn, decide_false, Bool.false_or]
      omega

/-- setting a run of clear bits below the bound takes its length from the count -/
theorem countFree_setRange {lo len n : Nat} (hle : lo + len ≤ n) (hclear : ∀ k < len, testBit b (lo + k) = false) :
    countFree (setRange b lo len) n + len = countFree b n := by
  induction len generalizing b lo with
  | zero => simp [setRange_zero]
  | succ len ih =>
    have hfirst : testBit b lo = false := by simpa using hclear 0 (by omega)
    have hrest : ∀ k < len, testBit (setBit b lo) (lo + 1 + k) = false := by
      intro k hk
      rw [testBit_setBit, show lo + 1 + k = lo + (k + 1) by omega, hclear (k + 1) (by omega)]
      simp
    have hone := countFree_setBit (by omega : lo < n) hfirst
    rw [setRange_succ, ← hone, ← ih (by omega) hrest]
    omega

/-- clearing a bit below the bound that was set adds one to the count -/
theorem countFree_clearBit {i n : Nat} (hi : i < n) (hset : testBit b i = true) :
    countFree (clearBit b i) n = countFree b n + 1 := by
  induction n with
  | zero => omega
  | succ n ih =>
    rw [countFree_succ, countFree_succ, testBit_clearBit]
    by_cases hin : i = n
    · subst hin
      have hbelow : countFree (clearBit b i) i = countFree b i :=
        countFree_congr fun k hk => by simp [Nat.ne_of_lt hk]
      simp [hbelow, hset]
    · have hn : n ≠ i := Ne.symm hin
      rw [ih (by omega)]
      simp only [hn, decide_false, Bool.not_false, Bool.true_and]
      omega

end ByteBitmap
