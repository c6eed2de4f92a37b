/-
ext_crc32c_update of modules/fs/ext/ext.c: the CRC-32C of the ext4 metadata checksums, a byte at a time from a table
of 256 words that the first call builds.

The table and its flag are static. They start zeroed; the first call fills the table, eight shift-and-xor steps for
each octet, and sets the flag; later calls use the table as it is. The state of a call is that pair (`Crc32cTable`),
and the state a call meets is the one a run of earlier calls left from the zeroed one (`crc32cCalls`). The checksums
take no final xor: a call continues the register it is given, and a checksum over several buffers is a chain of calls.

Results:
- `tableOk_crc32cCalls`: after any run of calls, a table marked ready holds, for every octet, its eight steps of the
  reflected Castagnoli register;
- `ext_crc32c_update_spec`: a call is the bit-serial reflected CRC-32C of its bytes, low bit first, and two chained
  calls are one call over the concatenation.
-/
import Mathlib
import Naos.Lib.Crc

namespace Naos.ExtCrc

/-- 0x82F63B78, the Castagnoli polynomial reflected -/
def CRC32C_POLY : BitVec 32 := 0x82F63B78#32

/-- `static uint32_t table[256]` and `static bool table_ready` -/
structure Crc32cTable where
  table : Nat → BitVec 32
  tableReady : Bool

/-- static storage, zeroed before the first call -/
def crc32cStatic : Crc32cTable where
  table _ := 0#32
  tableReady := false

/-- `for (uint32_t bit = 0; bit < 8; bit++) v = (v & 1) ? (v >> 1) ^ 0x82F63B78u : (v >> 1);` -/
def tableBitLoop (v : BitVec 32) : Nat → BitVec 32
  | 0 => v
  | n + 1 => tableBitLoop (if v &&& 1#32 ≠ 0#32 then (v >>> 1) ^^^ 0x82F63B78#32 else v >>> 1) n

/-- `for (uint32_t i = 0; i < 256; i++) { ...; table[i] = v; }` -/
def tableFillLoop (table : Nat → BitVec 32) (i : Nat) : Nat → Nat → BitVec 32
  | 0 => table
  | n + 1 => tableFillLoop (Function.update table i (tableBitLoop (BitVec.ofNat 32 i) 8)) (i + 1) n

/-- the table a call reads: the one it builds on the first call, the static one after -/
def crc32cTableOf (st : Crc32cTable) : Crc32cTable :=
  if !st.tableReady then { table := tableFillLoop st.table 0 256, tableReady := true } else st

/-- `ext_crc32c_update(crc, buf, len)` on the bytes of `buf`: the static state after the call, and the register;
`while (len--) crc = table[(crc ^ *p++) & 0xFFu] ^ (crc >> 8);` -/
def extCrc32cUpdate (st : Crc32cTable) (crc : BitVec 32) (buf : List (BitVec 8)) : Crc32cTable × BitVec 32 :=
  let st := crc32cTableOf st
  (st, buf.foldl (fun crc byte => st.table ((crc ^^^ byte.setWidth 32) &&& 0xFF#32).toNat ^^^ (crc >>> 8)) crc)

/-- the static state after a run of calls, each given its register and its bytes -/
def crc32cCalls (st : Crc32cTable) : List (BitVec 32 × List (BitVec 8)) → Crc32cTable
  | [] => st
  | call :: calls => crc32cCalls (extCrc32cUpdate st call.1 call.2).1 calls

theorem extCrc32cUpdate_eq (st : Crc32cTable) (crc : BitVec 32) (buf : List (BitVec 8)) :
    extCrc32cUpdate st crc buf = (crc32cTableOf st, Crc.tableRun (crc32cTableOf st).table crc buf) := rfl

theorem crc32cCalls_cons (st : Crc32cTable) (call : BitVec 32 × List (BitVec 8))
    (calls : List (BitVec 32 × List (BitVec 8))) :
    crc32cCalls st (call :: calls) = crc32cCalls (extCrc32cUpdate st call.1 call.2).1 calls := rfl

/-! ## The table -/

/-- the C test `v & 1` is the low bit -/
theorem and_one_ne_zero_iff (v : BitVec 32) : v &&& 1#32 ≠ 0#32 ↔ v.getLsbD 0 = true := by
  rw [BitVec.and_one_eq_setWidth_ofBool_getLsbD]
  cases v.getLsbD 0 <;> decide

/-- the build's inner loop is `n` steps of the reflected Castagnoli register -/
theorem tableBitLoop_eq_shifts (v : BitVec 32) (n : Nat) : tableBitLoop v n = Crc.shifts CRC32C_POLY v n := by
  induction n generalizing v with
  | zero => rfl
  | succ n ih =>
    have hstep : (if v &&& 1#32 ≠ 0#32 then (v >>> 1) ^^^ 0x82F63B78#32 else v >>> 1) = Crc.shift CRC32C_POLY v := by
      by_cases h : v.getLsbD 0 = true
      · rw [if_pos ((and_one_ne_zero_iff v).2 h), Crc.shift, if_pos h, CRC32C_POLY]
      · rw [if_neg (mt (and_one_ne_zero_iff v).1 h), Crc.shift, if_neg h]
    rw [tableBitLoop, hstep, ih, Crc.shifts_succ]

/-- the build's outer loop writes the entries `i .. i + n - 1` and nothing else -/
theorem tableFillLoop_apply (table : Nat → BitVec 32) (i n j : Nat) :
    tableFillLoop table i n j = if i ≤ j ∧ j < i + n then tableBitLoop (BitVec.ofNat 32 j) 8 else table j := by
  induction n generalizing table i with
  | zero =>
    rw [tableFillLoop, if_neg (by omega)]
  | succ n ih =>
    rw [tableFillLoop, ih]
    by_cases hj : j = i
    · subst hj
      rw [if_neg (by omega), Function.update_self, if_pos (by omega)]
    · rw [Function.update_of_ne hj]
      by_cases hin : i ≤ j ∧ j < i + (n + 1)
      · rw [if_pos (by omega), if_pos hin]
      · rw [if_neg (by omega), if_neg hin]

theorem crc32cTableOf_of_not_ready {st : Crc32cTable} (h : st.tableReady = false) :
    crc32cTableOf st = { table := tableFillLoop st.table 0 256, tableReady := true } := by
  rw [crc32cTableOf, h]
  rfl

theorem crc32cTableOf_of_ready {st : Crc32cTable} (h : st.tableReady = true) : crc32cTableOf st = st := by
  rw [crc32cTableOf, h]
  rfl

theorem crc32cTableOf_tableReady (st : Crc32cTable) : (crc32cTableOf st).tableReady = true := by
  cases h : st.tableReady
  · rw [crc32cTableOf_of_not_ready h]
  · rw [crc32cTableOf_of_ready h, h]

/-- a table marked ready holds the eight steps of every octet -/
def TableOk (st : Crc32cTable) : Prop :=
  st.tableReady = true → ∀ i < 256, st.table i = Crc.tableEntry CRC32C_POLY i

theorem tableOk_crc32cStatic : TableOk crc32cStatic := by
  intro h
  exact absurd h Bool.false_ne_true

/-- the table a call reads is right, whatever static state the call met, if that one was right -/
theorem crc32cTableOf_entries {st : Crc32cTable} (h : TableOk st) :
    ∀ i < 256, (crc32cTableOf st).table i = Crc.tableEntry CRC32C_POLY i := by
  intro i hi
  cases hready : st.tableReady
  · rw [crc32cTableOf_of_not_ready hready]
    dsimp only
    rw [tableFillLoop_apply, if_pos ⟨Nat.zero_le i, hi⟩, tableBitLoop_eq_shifts]
    rfl
  · rw [crc32cTableOf_of_ready hready]
    exact h hready i hi

/-- after any run of calls, a table marked ready is right -/
theorem tableOk_crc32cCalls (calls : List (BitVec 32 × List (BitVec 8))) : TableOk (crc32cCalls crc32cStatic calls) := by
  suffices hrun : ∀ st, TableOk st → TableOk (crc32cCalls st calls) from hrun _ tableOk_crc32cStatic
  induction calls with
  | nil => exact fun st h => h
  | cons call calls ih =>
    intro st h
    rw [crc32cCalls_cons]
    exact ih _ fun _ => crc32cTableOf_entries h

/-! ## What a call computes -/

/-- a call whose static state is right is the bit-serial CRC-32C of its bytes -/
theorem extCrc32cUpdate_bitRun {st : Crc32cTable} (h : TableOk st) (crc : BitVec 32) (buf : List (BitVec 8)) :
    (extCrc32cUpdate st crc buf).2 = Crc.bitRun CRC32C_POLY crc buf := by
  rw [extCrc32cUpdate_eq, Crc.tableRun_eq_byteRun CRC32C_POLY (crc32cTableOf_entries h),
    Crc.byteRun_eq_bitRun CRC32C_POLY (by decide)]

/-- the table a call reads is the one the next call reads -/
theorem crc32cTableOf_idem (st : Crc32cTable) : crc32cTableOf (crc32cTableOf st) = crc32cTableOf st :=
  crc32cTableOf_of_ready (crc32cTableOf_tableReady st)

/-- a call after a call continues over the concatenation, whatever the static state -/
theorem extCrc32cUpdate_append (st : Crc32cTable) (crc : BitVec 32) (a b : List (BitVec 8)) :
    extCrc32cUpdate (extCrc32cUpdate st crc a).1 (extCrc32cUpdate st crc a).2 b = extCrc32cUpdate st crc (a ++ b) := by
  rw [extCrc32cUpdate_eq st crc a, extCrc32cUpdate_eq, extCrc32cUpdate_eq st crc (a ++ b), crc32cTableOf_idem,
    Crc.tableRun, Crc.tableRun, Crc.tableRun, List.foldl_append]

/-- **ext_crc32c_update.** After any run of earlier calls, a call on register `c` and bytes `a` is the bit-serial
reflected CRC-32C of `a` from `c`, low bit first, and a call on `b` continuing it is one call on `a ++ b` -/
theorem ext_crc32c_update_spec (calls : List (BitVec 32 × List (BitVec 8))) (c : BitVec 32) (a b : List (BitVec 8)) :
    (extCrc32cUpdate (crc32cCalls crc32cStatic calls) c a).2 = Crc.bitRun CRC32C_POLY c a ∧
      (extCrc32cUpdate (extCrc32cUpdate (crc32cCalls crc32cStatic calls) c a).1
          (extCrc32cUpdate (crc32cCalls crc32cStatic calls) c a).2 b).2 =
        (extCrc32cUpdate (crc32cCalls crc32cStatic calls) c (a ++ b)).2 :=
  ⟨extCrc32cUpdate_bitRun (tableOk_crc32cCalls calls) c a,
    congrArg Prod.snd (extCrc32cUpdate_append _ c a b)⟩

/-- the first call, from the zeroed static state, on "123456789" with the register inverted before and after: the
CRC-32C check value -/
example : (extCrc32cUpdate crc32cStatic 0xFFFFFFFF#32
    ([0x31, 0x32, 0x33, 0x34, 0x35, 0x36, 0x37, 0x38, 0x39].map (BitVec.ofNat 8))).2 ^^^ 0xFFFFFFFF#32 =
      0xE3069283#32 := by
  decide +kernel

end Naos.ExtCrc
