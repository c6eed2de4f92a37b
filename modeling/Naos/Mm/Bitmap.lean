/-
The frame bitmap of kernel/src/mm/bitmap.c: bitmap_get, bitmap_set, bitmap_set_range and bitmap_find_range_from.

A bitmap keeps bit `i` as bit `i % 8` of byte `i / 8` of its buffer and knows its length in bits, which bitmap_init
makes eight times the buffer's size. bitmap_set_range writes the bits of `[start, end)`, `end` cut to the length:
single bits up to the first byte boundary, whole bytes in the middle, single bits after the last boundary.
bitmap_find_range_from scans from `start_from` with a run counter that every mismatch resets.

Results:
- `bitmap_set_range_spec`: bit `i` of the buffer becomes `value` for `start ≤ i < min(end, length)` and every other
  bit stays as it was, whatever the arguments; the call is the loop that writes the bits one by one;
- `bitmap_find_range_from_spec`: for a run length of at least one, the result is the least `i ≥ start_from` at which
  `length` bits equal to `value` lie inside the bitmap, or `(size_t)-1` when there is none.
-/
import Mathlib
import Naos.Lib.ByteBitmap

namespace Naos.Bitmaps

open ByteBitmap

/-- `(size_t)-1` -/
def SIZE_MAX : Nat := 2 ^ 64 - 1

/-- `Bitmap`: its buffer and its length in bits -/
@[ext]
structure Bitmap where
  buffer : Nat → BitVec 8
  length : Nat

/-- `(buffer[index / 8] >> (index % 8)) & 1` -/
def bitmapBit (buffer : Nat → BitVec 8) (index : Nat) : Bool :=
  (buffer (index / 8) >>> (index % 8)) &&& 1#8 != 0#8

/-- `bitmap_get` -/
def bitmapGet (bitmap : Bitmap) (index : Nat) : Bool :=
  if index ≥ bitmap.length then false else bitmapBit bitmap.buffer index

/-- `bitmap_set` -/
def bitmapSet (bitmap : Bitmap) (index : Nat) (value : Bool) : Bitmap :=
  if index ≥ bitmap.length then bitmap
  else if value then { bitmap with buffer := setBit bitmap.buffer index }
  else { bitmap with buffer := clearBit bitmap.buffer index }

/-- `for (size_t i = index; i < index + n; i++) bitmap_set(bitmap, i, value);` -/
def bitmapSetLoop (bitmap : Bitmap) (index : Nat) (value : Bool) : Nat → Bitmap
  | 0 => bitmap
  | n + 1 => bitmapSetLoop (bitmapSet bitmap index value) (index + 1) value n

/-- `for (size_t i = index; i < index + n; i++) bitmap->buffer[i] = fill_value;` -/
def bitmapFillLoop (buffer : Nat → BitVec 8) (index : Nat) (fillValue : BitVec 8) : Nat → Nat → BitVec 8
  | 0 => buffer
  | n + 1 => bitmapFillLoop (Function.update buffer index fillValue) (index + 1) fillValue n

/-- `bitmap_set_range(bitmap, start, end, value)` -/
def bitmapSetRange (bitmap : Bitmap) (start endBit : Nat) (value : Bool) : Bitmap :=
  if start ≥ endBit ∨ start ≥ bitmap.length then bitmap
  else
    let endBit := if endBit > bitmap.length then bitmap.length else endBit
    let startWord := (start + 7) / 8
    let endWord := endBit / 8
    let bitmap := bitmapSetLoop bitmap start value (min (startWord * 8) endBit - start)
    if startWord > endWord then bitmap
    else
      let bitmap :=
        if startWord ≤ endWord then
          let fillValue : BitVec 8 := if value then BitVec.allOnes 8 else 0#8
          { bitmap with buffer := bitmapFillLoop bitmap.buffer startWord fillValue (endWord - startWord) }
        else bitmap
      bitmapSetLoop bitmap (max (endWord * 8) start) value (endBit - max (endWord * 8) start)

/-- the scan of `bitmap_find_range_from` at `index`, `n` indices before the length, with the run it has seen -/
def findRangeLoop (bitmap : Bitmap) (length : Nat) (value : Bool) (runStart runCount index : Nat) : Nat → Nat
  | 0 => SIZE_MAX
  | n + 1 =>
    let bit := bitmapBit bitmap.buffer index
    if bit = value then
      let runStart := if runCount = 0 then index else runStart
      let runCount := runCount + 1
      if runCount ≥ length then runStart
      else findRangeLoop bitmap length value runStart runCount (index + 1) n
    else findRangeLoop bitmap length value runStart 0 (index + 1) n

/-- `bitmap_find_range_from(bitmap, length, value, start_from)` -/
def bitmapFindRangeFrom (bitmap : Bitmap) (length : Nat) (value : Bool) (startFrom : Nat) : Nat :=
  if length = 0 ∨ startFrom ≥ bitmap.length then SIZE_MAX
  else findRangeLoop bitmap length value 0 0 startFrom (bitmap.length - startFrom)

/-- `bitmap_find_range` -/
def bitmapFindRange (bitmap : Bitmap) (length : Nat) (value : Bool) : Nat :=
  bitmapFindRangeFrom bitmap length value 0

theorem bitmapSetLoop_zero (bitmap : Bitmap) (index : Nat) (value : Bool) : bitmapSetLoop bitmap index value 0 = bitmap :=
  rfl

theorem bitmapSetLoop_succ (bitmap : Bitmap) (index : Nat) (value : Bool) (n : Nat) :
    bitmapSetLoop bitmap index value (n + 1) = bitmapSetLoop (bitmapSet bitmap index value) (index + 1) value n := rfl

theorem bitmapFillLoop_zero (buffer : Nat → BitVec 8) (index : Nat) (fillValue : BitVec 8) :
    bitmapFillLoop buffer index fillValue 0 = buffer := rfl

theorem bitmapFillLoop_succ (buffer : Nat → BitVec 8) (index : Nat) (fillValue : BitVec 8) (n : Nat) :
    bitmapFillLoop buffer index fillValue (n + 1) =
      bitmapFillLoop (Function.update buffer index fillValue) (index + 1) fillValue n := rfl

theorem findRangeLoop_zero (bitmap : Bitmap) (length : Nat) (value : Bool) (runStart runCount index : Nat) :
    findRangeLoop bitmap length value runStart runCount index 0 = SIZE_MAX := rfl

theorem findRangeLoop_succ (bitmap : Bitmap) (length : Nat) (value : Bool) (runStart runCount index n : Nat) :
    findRangeLoop bitmap length value runStart runCount index (n + 1) =
      if bitmapBit bitmap.buffer index = value then
        if runCount + 1 ≥ length then (if runCount = 0 then index else runStart)
        else findRangeLoop bitmap length value (if runCount = 0 then index else runStart) (runCount + 1) (index + 1) n
      else findRangeLoop bitmap length value runStart 0 (index + 1) n := rfl

/-! ## Bits -/

/-- the shift-and-mask read of bitmap.c is the bit of the byte -/
theorem bitmapBit_eq_testBit (buffer : Nat → BitVec 8) (index : Nat) : bitmapBit buffer index = testBit buffer index := by
  rw [bitmapBit, testBit_eq, BitVec.and_one_eq_setWidth_ofBool_getLsbD, BitVec.getLsbD_ushiftRight, Nat.add_zero]
  cases (buffer (index / 8)).getLsbD (index % 8) <;> decide

theorem bitmapGet_eq (bitmap : Bitmap) (index : Nat) :
    bitmapGet bitmap index = (decide (index < bitmap.length) && testBit bitmap.buffer index) := by
  rw [bitmapGet, bitmapBit_eq_testBit]
  by_cases h : index < bitmap.length
  · rw [if_neg (by omega), decide_eq_true h, Bool.true_and]
  · rw [if_pos (by omega), decide_eq_false h, Bool.false_and]

@[simp] theorem bitmapSet_length (bitmap : Bitmap) (index : Nat) (value : Bool) :
    (bitmapSet bitmap index value).length = bitmap.length := by
  unfold bitmapSet
  split_ifs <;> rfl

/-- `bitmap_set` writes its bit when it lies inside the bitmap, and nothing else -/
theorem testBit_bitmapSet (bitmap : Bitmap) (index : Nat) (value : Bool) (j : Nat) :
    testBit (bitmapSet bitmap index value).buffer j =
      if index < bitmap.length ∧ j = index then value else testBit bitmap.buffer j := by
  unfold bitmapSet
  by_cases hin : index ≥ bitmap.length
  · rw [if_pos hin, if_neg (by omega)]
  · rw [if_neg hin]
    have hlt : index < bitmap.length := by omega
    by_cases hj : j = index
    · subst hj
      cases value <;> simp [hlt]
    · cases value <;> simp [hj]

@[simp] theorem bitmapSetLoop_length (bitmap : Bitmap) (index : Nat) (value : Bool) (n : Nat) :
    (bitmapSetLoop bitmap index value n).length = bitmap.length := by
  induction n generalizing bitmap index with
  | zero => rfl
  | succ n ih => rw [bitmapSetLoop_succ, ih, bitmapSet_length]

/-- the bit-by-bit loop over `[index, index + n)` inside the bitmap writes those bits and no other -/
theorem testBit_bitmapSetLoop {bitmap : Bitmap} {index n : Nat} (h : index + n ≤ bitmap.length) (value : Bool)
    (j : Nat) : testBit (bitmapSetLoop bitmap index value n).buffer j =
      if index ≤ j ∧ j < index + n then value else testBit bitmap.buffer j := by
  induction n generalizing bitmap index with
  | zero => rw [bitmapSetLoop_zero, if_neg (by omega)]
  | succ n ih =>
    rw [bitmapSetLoop_succ, ih (by rw [bitmapSet_length]; omega), testBit_bitmapSet]
    by_cases hj : j = index
    · rw [if_neg (by omega), if_pos ⟨by omega, hj⟩, if_pos ⟨by omega, by omega⟩]
    · by_cases hin : index + 1 ≤ j ∧ j < index + 1 + n
      · rw [if_pos hin, if_pos (by omega)]
      · rw [if_neg hin, if_neg (fun h => hj h.2), if_neg (by omega)]

theorem bitmapFillLoop_apply (buffer : Nat → BitVec 8) (index : Nat) (fillValue : BitVec 8) (n k : Nat) :
    bitmapFillLoop buffer index fillValue n k = if index ≤ k ∧ k < index + n then fillValue else buffer k := by
  induction n generalizing buffer index with
  | zero => rw [bitmapFillLoop_zero, if_neg (by omega)]
  | succ n ih =>
    rw [bitmapFillLoop_succ, ih]
    by_cases hk : k = index
    · subst hk
      rw [if_neg (by omega), Function.update_self, if_pos (by omega)]
    · rw [Function.update_of_ne hk]
      by_cases hin : index + 1 ≤ k ∧ k < index + 1 + n
      · rw [if_pos hin, if_pos (by omega)]
      · rw [if_neg hin, if_neg (by omega)]

/-- filling whole bytes with all ones or all zeros writes every bit of them -/
theorem testBit_bitmapFillLoop (buffer : Nat → BitVec 8) (index : Nat) (value : Bool) (n j : Nat) :
    testBit (bitmapFillLoop buffer index (if value then BitVec.allOnes 8 else 0#8) n) j =
      if 8 * index ≤ j ∧ j < 8 * (index + n) then value else testBit buffer j := by
  rw [testBit_eq, testBit_eq, bitmapFillLoop_apply]
  have hiff : (index ≤ j / 8 ∧ j / 8 < index + n) ↔ (8 * index ≤ j ∧ j < 8 * (index + n)) := by omega
  by_cases hin : 8 * index ≤ j ∧ j < 8 * (index + n)
  · rw [if_pos (hiff.2 hin), if_pos hin]
    cases value
    · exact BitVec.getLsbD_zero
    · rw [if_pos rfl, BitVec.getLsbD_allOnes]
      exact decide_eq_true (Nat.mod_lt j (by decide))
  · rw [if_neg (mt hiff.1 hin), if_neg hin]

/-! ## bitmap_set_range -/

@[simp] theorem bitmapSetRange_length (bitmap : Bitmap) (start endBit : Nat) (value : Bool) :
    (bitmapSetRange bitmap start endBit value).length = bitmap.length := by
  unfold bitmapSetRange
  by_cases htriv : start ≥ endBit ∨ start ≥ bitmap.length
  · rw [if_pos htriv]
  rw [if_neg htriv]
  dsimp only
  by_cases hsame : (start + 7) / 8 > (if endBit > bitmap.length then bitmap.length else endBit) / 8
  · rw [if_pos hsame, bitmapSetLoop_length]
  · rw [if_neg hsame, if_pos (by omega), bitmapSetLoop_length, bitmapSetLoop_length]

/-- the head bits, the whole bytes and the tail bits together write `[start, min(end, length))` -/
theorem testBit_bitmapSetRange (bitmap : Bitmap) (start endBit : Nat) (value : Bool) (j : Nat) :
    testBit (bitmapSetRange bitmap start endBit value).buffer j =
      if start ≤ j ∧ j < min endBit bitmap.length then value else testBit bitmap.buffer j := by
  unfold bitmapSetRange
  by_cases htriv : start ≥ endBit ∨ start ≥ bitmap.length
  · rw [if_pos htriv, if_neg (by omega)]
  rw [if_neg htriv]
  dsimp only
  have hend : (if endBit > bitmap.length then bitmap.length else endBit) = min endBit bitmap.length := by
    split_ifs <;> omega
  rw [hend]
  have hhead : start + (min ((start + 7) / 8 * 8) (min endBit bitmap.length) - start) ≤ bitmap.length := by omega
  by_cases hsame : (start + 7) / 8 > min endBit bitmap.length / 8
  · rw [if_pos hsame, testBit_bitmapSetLoop hhead]
    have hiff : (start ≤ j ∧ j < start + (min ((start + 7) / 8 * 8) (min endBit bitmap.length) - start)) ↔
        (start ≤ j ∧ j < min endBit bitmap.length) := by omega
    by_cases hin : start ≤ j ∧ j < min endBit bitmap.length
    · rw [if_pos (hiff.2 hin), if_pos hin]
    · rw [if_neg (mt hiff.1 hin), if_neg hin]
  · rw [if_neg hsame, if_pos (by omega), testBit_bitmapSetLoop, testBit_bitmapFillLoop, testBit_bitmapSetLoop hhead]
    · by_cases hin : start ≤ j ∧ j < min endBit bitmap.length
      · rw [if_pos hin]
        split_ifs <;> first | rfl | omega
      · rw [if_neg hin, if_neg (by omega), if_neg (by omega), if_neg (by omega)]
    · rw [bitmapSetLoop_length]
      omega

/-- **bitmap_set_range.** For every bitmap, range and value, the call keeps the length, writes `value` to every bit of
`[start, min(end, length))` and leaves every other bit of the buffer as it was; and it is the loop that writes those
bits one by one with bitmap_set -/
theorem bitmap_set_range_spec (bitmap : Bitmap) (start endBit : Nat) (value : Bool) :
    (bitmapSetRange bitmap start endBit value).length = bitmap.length ∧
      (∀ j, testBit (bitmapSetRange bitmap start endBit value).buffer j =
        if start ≤ j ∧ j < min endBit bitmap.length then value else testBit bitmap.buffer j) ∧
      bitmapSetRange bitmap start endBit value =
        bitmapSetLoop bitmap start value (min endBit bitmap.length - start) := by
  have hbits := testBit_bitmapSetRange bitmap start endBit value
  refine ⟨bitmapSetRange_length bitmap start endBit value, hbits, ?_⟩
  refine Bitmap.ext (testBit_ext fun j => ?_) (by simp)
  rw [hbits]
  by_cases hle : start ≤ bitmap.length
  · rw [testBit_bitmapSetLoop (by omega)]
    by_cases hin : start ≤ j ∧ j < min endBit bitmap.length
    · rw [if_pos hin, if_pos (by omega)]
    · rw [if_neg hin, if_neg (by omega)]
  · rw [show min endBit bitmap.length - start = 0 by omega, bitmapSetLoop_zero, if_neg (by omega)]

/-! ## bitmap_find_range_from -/

/-- a run of `length` bits equal to `value` at `i ≥ startFrom`, inside the bitmap -/
def RunAt (bitmap : Bitmap) (length : Nat) (value : Bool) (startFrom i : Nat) : Prop :=
  startFrom ≤ i ∧ i + length ≤ bitmap.length ∧ ∀ k < length, bitmapGet bitmap (i + k) = value

instance (bitmap : Bitmap) (length : Nat) (value : Bool) (startFrom i : Nat) :
    Decidable (RunAt bitmap length value startFrom i) :=
  @instDecidableAnd _ _ (Nat.decLe _ _)
    (@instDecidableAnd _ _ (Nat.decLe _ _) (Nat.decidableBallLT length fun k _ => bitmapGet bitmap (i + k) = value))

/-- a run starts at the length at the latest -/
theorem exists_runAt_iff (bitmap : Bitmap) (length : Nat) (value : Bool) (startFrom : Nat) :
    (∃ i, i < bitmap.length + 1 ∧ RunAt bitmap length value startFrom i) ↔ ∃ i, RunAt bitmap length value startFrom i :=
  ⟨fun ⟨i, _, hi⟩ => ⟨i, hi⟩, fun ⟨i, hi⟩ => ⟨i, by have := hi.2.1; omega, hi⟩⟩

instance (bitmap : Bitmap) (length : Nat) (value : Bool) (startFrom : Nat) :
    Decidable (∃ i, RunAt bitmap length value startFrom i) :=
  decidable_of_iff _ (exists_runAt_iff bitmap length value startFrom)

/-- what the scan knows at `index` with a run of `runCount` bits that started at `runStart` -/
structure FindInv (bitmap : Bitmap) (length : Nat) (value : Bool) (startFrom runStart runCount index : Nat) :
    Prop where
  /-- the run lies after `startFrom` -/
  run_after : startFrom + runCount ≤ index
  /-- its bits equal `value` -/
  run_bits : ∀ k < runCount, bitmapGet bitmap (index - runCount + k) = value
  /-- it is recorded from where it started -/
  run_start : runCount = 0 ∨ runStart = index - runCount
  /-- it is shorter than what is looked for -/
  run_short : runCount < length
  /-- it cannot be extended to the left -/
  run_maximal : index - runCount = startFrom ∨ bitmapGet bitmap (index - runCount - 1) ≠ value
  /-- no whole run lies before `index` -/
  none_before : ∀ i, startFrom ≤ i → i + length ≤ index → ¬ ∀ k < length, bitmapGet bitmap (i + k) = value

variable {bitmap : Bitmap} {length : Nat} {value : Bool} {startFrom runStart runCount index : Nat}

theorem findInv_start (hlen : 0 < length) : FindInv bitmap length value startFrom 0 0 startFrom where
  run_after := by omega
  run_bits := fun k hk => absurd hk (Nat.not_lt_zero k)
  run_start := Or.inl rfl
  run_short := hlen
  run_maximal := Or.inl rfl
  none_before := fun i hi hend => by omega

/-- a bit unlike `value` ends the run -/
theorem FindInv.mismatch (h : FindInv bitmap length value startFrom runStart runCount index) (hlen : 0 < length)
    (hbit : bitmapGet bitmap index ≠ value) : FindInv bitmap length value startFrom runStart 0 (index + 1) where
  run_after := by have := h.run_after; omega
  run_bits := fun k hk => absurd hk (Nat.not_lt_zero k)
  run_start := Or.inl rfl
  run_short := hlen
  run_maximal := Or.inr (by simpa using hbit)
  none_before := by
    intro i hi hend hall
    by_cases hold : i + length ≤ index
    · exact h.none_before i hi hold hall
    · exact hbit (by simpa [show i + (index - i) = index by omega] using hall (index - i) (by omega))

/-- a bit equal to `value` extends the run, which is still short -/
theorem FindInv.extend (h : FindInv bitmap length value startFrom runStart runCount index)
    (hbit : bitmapGet bitmap index = value) (hshort : ¬ runCount + 1 ≥ length) :
    FindInv bitmap length value startFrom (if runCount = 0 then index else runStart) (runCount + 1) (index + 1) where
  run_after := by have := h.run_after; omega
  run_bits := by
    intro k hk
    by_cases hlast : k = runCount
    · rw [hlast, show index + 1 - (runCount + 1) + runCount = index by have := h.run_after; omega]
      exact hbit
    · rw [show index + 1 - (runCount + 1) + k = index - runCount + k by have := h.run_after; omega]
      exact h.run_bits k (by omega)
  run_start := by
    right
    rcases h.run_start with h0 | hs
    · rw [if_pos h0, h0]
      omega
    · by_cases h0 : runCount = 0
      · rw [if_pos h0, h0]
        omega
      · rw [if_neg h0, hs]
        omega
  run_short := by omega
  run_maximal := by
    rw [show index + 1 - (runCount + 1) = index - runCount by have := h.run_after; omega]
    exact h.run_maximal
  none_before := by
    intro i hi hend hall
    by_cases hold : i + length ≤ index
    · exact h.none_before i hi hold hall
    · rcases h.run_maximal with hfrom | hprev
      · omega
      · apply hprev
        have hk := hall (index - runCount - 1 - i) (by omega)
        rwa [show i + (index - runCount - 1 - i) = index - runCount - 1 by omega] at hk

/-- the scan over the last `n` indices below the length answers the least run, or `(size_t)-1` when there is none -/
theorem findRangeLoop_spec (hlen : 0 < length) (n : Nat) (hn : index + n = bitmap.length)
    (h : FindInv bitmap length value startFrom runStart runCount index) :
    (findRangeLoop bitmap length value runStart runCount index n = SIZE_MAX ∧
        ∀ i, ¬ RunAt bitmap length value startFrom i) ∨
      (RunAt bitmap length value startFrom (findRangeLoop bitmap length value runStart runCount index n) ∧
        ∀ i < findRangeLoop bitmap length value runStart runCount index n, ¬ RunAt bitmap length value startFrom i) := by
  induction n generalizing runStart runCount index with
  | zero =>
    left
    refine ⟨findRangeLoop_zero .., fun i ⟨hi, hend, hall⟩ => h.none_before i hi (by omega) hall⟩
  | succ n ih =>
    have hget : bitmapBit bitmap.buffer index = bitmapGet bitmap index := by
      rw [bitmapBit_eq_testBit, bitmapGet_eq, decide_eq_true (by omega : index < bitmap.length), Bool.true_and]
    rw [findRangeLoop_succ, hget]
    by_cases hbit : bitmapGet bitmap index = value
    · rw [if_pos hbit]
      by_cases hfull : runCount + 1 ≥ length
      · rw [if_pos hfull]
        right
        have hstart : (if runCount = 0 then index else runStart) = index - runCount := by
          rcases h.run_start with h0 | hs
          · rw [if_pos h0, h0, Nat.sub_zero]
          · by_cases h0 : runCount = 0
            · rw [if_pos h0, h0, Nat.sub_zero]
            · rw [if_neg h0, hs]
        have hcount : runCount + 1 = length := by have := h.run_short; omega
        rw [hstart]
        refine ⟨⟨by have := h.run_after; omega, by have := h.run_after; omega, fun k hk => ?_⟩, ?_⟩
        · by_cases hlast : k = runCount
          · rw [hlast, show index - runCount + runCount = index by have := h.run_after; omega]
            exact hbit
          · exact h.run_bits k (by omega)
        · intro i hi ⟨hfrom, _, hall⟩
          exact h.none_before i hfrom (by omega) hall
      · rw [if_neg hfull]
        exact ih (by omega) (h.extend hbit hfull)
    · rw [if_neg hbit]
      exact ih (by omega) (h.mismatch hlen hbit)

/-- **bitmap_find_range_from.** For a run length of at least one, the call returns the least `i ≥ start_from` at which
`length` bits equal to `value` lie inside the bitmap, and `(size_t)-1` when there is no such `i` -/
theorem bitmap_find_range_from_spec (bitmap : Bitmap) {length : Nat} (hlen : 0 < length) (value : Bool)
    (startFrom : Nat) :
    bitmapFindRangeFrom bitmap length value startFrom =
      if h : ∃ i, RunAt bitmap length value startFrom i then Nat.find h else SIZE_MAX := by
  unfold bitmapFindRangeFrom
  by_cases hout : length = 0 ∨ startFrom ≥ bitmap.length
  · have hnone : ¬ ∃ i, RunAt bitmap length value startFrom i := fun ⟨i, hi, hend, _⟩ => by omega
    rw [if_pos hout, dif_neg hnone]
  rw [if_neg hout]
  have hstart : FindInv bitmap length value startFrom 0 0 startFrom := findInv_start hlen
  rcases findRangeLoop_spec hlen (bitmap.length - startFrom) (by omega) hstart with ⟨hres, hnone⟩ | ⟨hrun, hleast⟩
  · rw [hres, dif_neg fun ⟨i, hi⟩ => hnone i hi]
  · have hex : ∃ i, RunAt bitmap length value startFrom i := ⟨_, hrun⟩
    rw [dif_pos hex]
    exact ((Nat.find_eq_iff hex).2 ⟨hrun, hleast⟩).symm

/-- two bytes, the first 0b00001101: bits 0, 2 and 3 set -/
def sampleBitmap : Bitmap where
  buffer k := if k = 0 then 0x0D#8 else 0#8
  length := 16

/-- the first two set bits in a row of the sample start at 2, and the call finds them -/
theorem sampleBitmap_first_pair : RunAt sampleBitmap 2 true 0 2 ∧ bitmapFindRangeFrom sampleBitmap 2 true 0 = 2 := by
  have hspec := bitmap_find_range_from_spec sampleBitmap (by decide : 0 < 2) true 0
  have hex : ∃ i, RunAt sampleBitmap 2 true 0 i := ⟨2, by decide⟩
  rw [dif_pos hex] at hspec
  exact ⟨by decide, hspec.trans ((Nat.find_eq_iff hex).2 ⟨by decide, by decide⟩)⟩

end Naos.Bitmaps
