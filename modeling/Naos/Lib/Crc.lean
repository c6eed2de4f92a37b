/-
A reflected CRC register, fed one bit, one octet or one table lookup at a time.

The register is a word of `w` bits and the polynomial `p` is written reflected: the register shifts towards its low
end and the polynomial enters at the top. One step drops the low bit and, when that bit was set, adds the polynomial
(`shift`). A message bit enters by being added at the low end before a step (`bitStep`); an octet enters whole before
eight steps (`byteStep`); a table holding the eight steps of each of the 256 octets gives the step of an octet as one
lookup (`tableStep`). Addition is exclusive or throughout.

Results:
- `shift_xor`: a step is linear in exclusive or, and so are `k` steps (`shifts_xor`);
- `shifts_of_low_clear`: `k` steps of a word whose low `k` bits are clear only move it down;
- `foldl_bitStep_byte`: the eight bits of an octet, low bit first, are one octet step, in a register of at least
  eight bits;
- `tableStep_eq_byteStep`: with the table's entries right, a lookup is an octet step;
- over a message, the three forms agree (`byteRun_eq_bitRun`, `tableRun_eq_byteRun`).
-/
import Mathlib

namespace Crc

open BitVec

variable {w : Nat} (p : BitVec w)

/-- one step of the register: the low bit drops out and, if it was set, the polynomial is added -/
def shift (c : BitVec w) : BitVec w := if c.getLsbD 0 then (c >>> 1) ^^^ p else c >>> 1

/-- `k` steps of the register -/
def shifts (c : BitVec w) : Nat → BitVec w
  | 0 => c
  | k + 1 => shifts (shift p c) k

/-- a message bit: added at the low end, then one step -/
def bitStep (c : BitVec w) (bit : Bool) : BitVec w := shift p (if bit then c ^^^ 1#w else c)

/-- the bits of an octet, low bit first -/
def bitsOfByte (byte : BitVec 8) : List Bool := (List.range' 0 8).map byte.getLsbD

/-- an octet: added at the low end, then eight steps -/
def byteStep (c : BitVec w) (byte : BitVec 8) : BitVec w := shifts p (c ^^^ byte.setWidth w) 8

/-- the table's entry for octet `i`: eight steps from `i` -/
def tableEntry (i : Nat) : BitVec w := shifts p (BitVec.ofNat w i) 8

/-- an octet through a table: the entry for the low octet of the sum, and the rest of the register moved down -/
def tableStep (table : Nat → BitVec w) (c : BitVec w) (byte : BitVec 8) : BitVec w :=
  table ((c ^^^ byte.setWidth w) &&& 255#w).toNat ^^^ (c >>> 8)

/-- a message, bit by bit -/
def bitRun (c : BitVec w) (msg : List (BitVec 8)) : BitVec w := (msg.flatMap bitsOfByte).foldl (bitStep p) c

/-- a message, octet by octet -/
def byteRun (c : BitVec w) (msg : List (BitVec 8)) : BitVec w := msg.foldl (byteStep p) c

/-- a message through a table -/
def tableRun (table : Nat → BitVec w) (c : BitVec w) (msg : List (BitVec 8)) : BitVec w :=
  msg.foldl (tableStep table) c

theorem shifts_zero (c : BitVec w) : shifts p c 0 = c := rfl

theorem shifts_succ (c : BitVec w) (k : Nat) : shifts p c (k + 1) = shifts p (shift p c) k := rfl

/-! ## Linearity -/

theorem xor_xor_cancel (a b p : BitVec w) : (a ^^^ p) ^^^ (b ^^^ p) = a ^^^ b := by
  rw [BitVec.xor_assoc, ← BitVec.xor_assoc p, BitVec.xor_comm p b, BitVec.xor_assoc b, BitVec.xor_self,
    BitVec.xor_zero]

theorem shift_xor (a b : BitVec w) : shift p (a ^^^ b) = shift p a ^^^ shift p b := by
  simp only [shift, getLsbD_xor, ushiftRight_xor_distrib]
  cases a.getLsbD 0 <;> cases b.getLsbD 0
  · rfl
  · simp only [Bool.false_bne, if_true, Bool.false_eq_true, if_false, BitVec.xor_assoc]
  · simp only [Bool.true_bne, Bool.not_false, if_true, Bool.false_eq_true, if_false]
    rw [BitVec.xor_assoc, BitVec.xor_comm (b >>> 1) p, ← BitVec.xor_assoc]
  · simp only [Bool.true_bne, Bool.not_true, Bool.false_eq_true, if_false, if_true]
    exact (xor_xor_cancel _ _ p).symm

theorem shifts_xor (a b : BitVec w) (k : Nat) : shifts p (a ^^^ b) k = shifts p a k ^^^ shifts p b k := by
  induction k generalizing a b with
  | zero => rfl
  | succ k ih => rw [shifts_succ, shift_xor, ih, shifts_succ, shifts_succ]

/-! ## Words whose low bits are clear -/

theorem shift_of_getLsbD_zero {c : BitVec w} (h : c.getLsbD 0 = false) : shift p c = c >>> 1 := by
  rw [shift, h, if_neg Bool.false_ne_true]

/-- `k` steps of a word whose low `k` bits are clear add no polynomial: they only move it down -/
theorem shifts_of_low_clear {k : Nat} {c : BitVec w} (h : ∀ i < k, c.getLsbD i = false) :
    shifts p c k = c >>> k := by
  induction k generalizing c with
  | zero => simp [shifts_zero]
  | succ k ih =>
    have hrest : ∀ i < k, (c >>> 1).getLsbD i = false := by
      intro i hi
      rw [getLsbD_ushiftRight]
      exact h (1 + i) (by omega)
    rw [shifts_succ, shift_of_getLsbD_zero p (h 0 (by omega)), ih hrest, ← shiftRight_add, Nat.add_comm]

theorem testBit_255 (i : Nat) : (255 : Nat).testBit i = decide (i < 8) := by
  rw [show (255 : Nat) = 2 ^ 8 - 1 by rfl, Nat.testBit_two_pow_sub_one]

/-- a word is its low octet plus the rest -/
theorem low_xor_high (x : BitVec w) : x = (x &&& 255#w) ^^^ (x &&& ~~~255#w) := by
  apply BitVec.eq_of_getLsbD_eq
  intro i hi
  simp only [getLsbD_xor, getLsbD_and, getLsbD_not, hi, decide_true, Bool.true_and]
  cases x.getLsbD i <;> cases (255#w).getLsbD i <;> rfl

theorem high_low_clear (x : BitVec w) : ∀ i < 8, (x &&& ~~~255#w).getLsbD i = false := by
  intro i hi
  simp [getLsbD_and, getLsbD_not, getLsbD_ofNat, testBit_255, hi]

theorem high_ushiftRight (x : BitVec w) : (x &&& ~~~255#w) >>> 8 = x >>> 8 := by
  apply BitVec.eq_of_getLsbD_eq
  intro i hi
  simp only [getLsbD_ushiftRight, getLsbD_and, getLsbD_not, getLsbD_ofNat, testBit_255]
  by_cases h : 8 + i < w
  · simp [h]
  · simp [BitVec.getLsbD_of_ge x (8 + i) (by omega)]

/-- eight steps: those of the low octet, and the rest moved down -/
theorem shifts_eight (x : BitVec w) : shifts p x 8 = shifts p (x &&& 255#w) 8 ^^^ (x >>> 8) := by
  conv_lhs => rw [low_xor_high x]
  rw [shifts_xor, shifts_of_low_clear p (high_low_clear x), high_ushiftRight]

/-! ## Bit by bit -/

/-- the low bits of `x`, `k` of them, fed bit by bit -/
def feed (c x : BitVec w) : Nat → BitVec w
  | 0 => c
  | k + 1 => feed (bitStep p c (x.getLsbD 0)) (x >>> 1) k

theorem feed_succ (c x : BitVec w) (k : Nat) :
    feed p c x (k + 1) = feed p (bitStep p c (x.getLsbD 0)) (x >>> 1) k := rfl

theorem one_ushiftRight_one : (1#w) >>> 1 = 0#w := by
  apply BitVec.eq_of_getLsbD_eq
  intro i _
  simp [getLsbD_ushiftRight, getLsbD_one]

/-- a step after adding `x` is the step after adding its low bit, plus the rest of `x` moved down -/
theorem shift_xor_eq_bitStep (c x : BitVec w) : shift p (c ^^^ x) = bitStep p c (x.getLsbD 0) ^^^ (x >>> 1) := by
  cases hx : x.getLsbD 0
  · simp only [bitStep, if_neg Bool.false_ne_true, shift, getLsbD_xor, hx, Bool.bne_false, ushiftRight_xor_distrib]
    split
    · rw [BitVec.xor_assoc, BitVec.xor_comm (x >>> 1) p, ← BitVec.xor_assoc]
    · rfl
  · have hw : 0 < w := BitVec.lt_of_getLsbD hx
    have hone : (1#w).getLsbD 0 = true := by simp [hw]
    simp only [bitStep, if_pos, shift, getLsbD_xor, hx, hone, ushiftRight_xor_distrib, one_ushiftRight_one,
      BitVec.xor_zero]
    split
    · rw [BitVec.xor_assoc, BitVec.xor_comm (x >>> 1) p, ← BitVec.xor_assoc]
    · rfl

/-- feeding the low `k` bits of `x` is `k` steps after adding `x`, less what of `x` lies above them -/
theorem feed_xor_ushiftRight (c x : BitVec w) (k : Nat) : feed p c x k ^^^ (x >>> k) = shifts p (c ^^^ x) k := by
  induction k generalizing c x with
  | zero => rfl
  | succ k ih =>
    rw [feed_succ, shifts_succ, shift_xor_eq_bitStep, ← ih, show k + 1 = 1 + k from Nat.add_comm k 1,
      shiftRight_add]

theorem foldl_bitStep_range' (c x : BitVec w) (s k : Nat) :
    ((List.range' s k).map x.getLsbD).foldl (bitStep p) c = feed p c (x >>> s) k := by
  induction k generalizing s c with
  | zero => rfl
  | succ k ih =>
    rw [List.range'_succ, List.map_cons, List.foldl_cons, ih, feed_succ, getLsbD_ushiftRight, ← shiftRight_add]
    simp only [Nat.add_zero]

theorem setWidth_ushiftRight_eight (byte : BitVec 8) : byte.setWidth w >>> 8 = 0#w := by
  apply BitVec.eq_of_toNat_eq
  have hlt : (byte.setWidth w).toNat < 2 ^ 8 :=
    lt_of_le_of_lt (by rw [toNat_setWidth]; exact Nat.mod_le _ _) byte.isLt
  rw [toNat_ushiftRight, Nat.shiftRight_eq_div_pow, Nat.div_eq_of_lt hlt, toNat_ofNat, Nat.zero_mod]

/-- the eight bits of an octet, low bit first, are one octet step -/
theorem foldl_bitStep_byte (hw : 8 ≤ w) (c : BitVec w) (byte : BitVec 8) :
    (bitsOfByte byte).foldl (bitStep p) c = byteStep p c byte := by
  have hbits : (List.range' 0 8).map byte.getLsbD = (List.range' 0 8).map (byte.setWidth w).getLsbD := by
    refine List.map_congr_left fun j hj => ?_
    have hj8 : j < 8 := by simpa using hj
    simp [show j < w by omega]
  have hfeed := feed_xor_ushiftRight p c (byte.setWidth w) 8
  rw [setWidth_ushiftRight_eight, BitVec.xor_zero] at hfeed
  rw [bitsOfByte, hbits, foldl_bitStep_range', BitVec.ushiftRight_zero, hfeed, byteStep]

/-! ## Through a table -/

theorem toNat_and_255_lt (x : BitVec w) : (x &&& 255#w).toNat < 256 := by
  rw [toNat_and]
  refine lt_of_le_of_lt Nat.and_le_right ?_
  rw [toNat_ofNat]
  exact lt_of_le_of_lt (Nat.mod_le _ _) (by decide)

/-- with the table's entries right, a lookup is an octet step -/
theorem tableStep_eq_byteStep {table : Nat → BitVec w} (htable : ∀ i < 256, table i = tableEntry p i)
    (c : BitVec w) (byte : BitVec 8) : tableStep table c byte = byteStep p c byte := by
  have hhigh : (c ^^^ byte.setWidth w) >>> 8 = c >>> 8 := by
    rw [ushiftRight_xor_distrib, setWidth_ushiftRight_eight, BitVec.xor_zero]
  rw [tableStep, htable _ (toNat_and_255_lt _), tableEntry, ofNat_toNat, setWidth_eq, byteStep,
    shifts_eight p (c ^^^ byte.setWidth w), hhigh]

/-! ## Over a message -/

theorem byteRun_eq_bitRun (hw : 8 ≤ w) (c : BitVec w) (msg : List (BitVec 8)) :
    byteRun p c msg = bitRun p c msg := by
  induction msg generalizing c with
  | nil => rfl
  | cons byte msg ih =>
    rw [byteRun, List.foldl_cons, ← byteRun, ih, bitRun, bitRun, List.flatMap_cons, List.foldl_append,
      foldl_bitStep_byte p hw]

theorem tableRun_eq_byteRun {table : Nat → BitVec w} (htable : ∀ i < 256, table i = tableEntry p i)
    (c : BitVec w) (msg : List (BitVec 8)) : tableRun table c msg = byteRun p c msg := by
  induction msg generalizing c with
  | nil => rfl
  | cons byte msg ih =>
    show tableRun table (tableStep table c byte) msg = byteRun p (byteStep p c byte) msg
    rw [ih, tableStep_eq_byteStep p htable]

end Crc
