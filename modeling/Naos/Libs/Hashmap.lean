/-
The open-addressing hash map of src/kernel/src/libs/hashmap.{h,c}.

A map is a `hashmap_t`: a pointer to `bucket_count` entries (NULL is `none`) and the counters `size`, for the
OCCUPIED entries, and `used`, for those that are not EMPTY. An entry is a `hashmap_entry_t`: a key, a value and a
state. Values are `void *`, so the model takes them from any type with a zero, the NULL pointer. A key hashes with
splitmix64 (`hashmapHashU64`); its home bucket is the hash masked by `bucket_count - 1`, and a probe steps one
bucket on under the same mask.

The source's `while (true)` probe loops stop when they meet what they look for. The model runs each for at most
`bucket_count` steps, which pass every bucket the loop will ever pass, and returns `none` when it has not stopped by
then: the table does not change while it probes, so the loop never ends. `hashmapNextCapacity` doubles a `size_t`,
and is `none` when the doubling wraps to 0, where the source loops forever (a capacity above 2^63). `calloc` is the
one of mm/slub.c: NULL when the byte count overflows a `size_t`, else what the allocator answers (`allocOk`), zeroed.

The counters and `bucket_count << 1` are kept as `Nat`: calloc accepts fewer than 2^60 buckets, and the counters
stay below `bucket_count`, so none of the size_t arithmetic on them wraps.

Functions: `hashmapHashU64`, `hashmapNextCapacity`, `hashmapBucketIndex`, `hashmapShouldGrow`,
`hashmapShouldRebuild`, `hashmapEntryIsOccupied`, `hashmapInsertRehashed`, `calloc`, `hashmapRehash`,
`hashmapInit`, `hashmapClear`, `hashmapDeinit`, `hashmapGet`, `hashmapPut`, `hashmapRemove`; `hashmapStep` is one
call of the interface and `hashmapRun` a sequence of them.
-/
import Naos.Lib.LinearProbe

namespace Naos.Hash

def HASHMAP_MIN_CAPACITY : Nat := 16
def HASHMAP_MAX_LOAD_NUM : Nat := 8
def HASHMAP_MAX_LOAD_DEN : Nat := 10
def HASHMAP_TOMBSTONE_REBUILD_MIN : Nat := 16

/-- errno.h -/
def ENOMEM : Int := 12

/-- sizeof(hashmap_entry_t): a uint64_t, a pointer and a uint8_t, padded to 8 bytes -/
def SIZEOF_HASHMAP_ENTRY : Nat := 24

/-- HASHMAP_ENTRY_EMPTY (0), HASHMAP_ENTRY_OCCUPIED (1), HASHMAP_ENTRY_TOMBSTONE (2) -/
inductive EntryState where
  | empty
  | occupied
  | tombstone
  deriving DecidableEq, Repr

/-- hashmap_entry_t -/
structure HashmapEntry (α : Type) where
  key : UInt64
  value : α
  state : EntryState

/-- hashmap_t -/
structure Hashmap (α : Type) where
  buckets : Option (Nat → HashmapEntry α)
  bucketCount : Nat
  size : Nat
  used : Nat

variable {α : Type}

def HASHMAP_INIT : Hashmap α := { buckets := none, bucketCount := 0, size := 0, used := 0 }

/-- hashmap_hash_u64: the splitmix64 finaliser -/
def hashmapHashU64 (key : UInt64) : UInt64 :=
  let key := key + 0x9e3779b97f4a7c15
  let key := (key ^^^ (key >>> 30)) * 0xbf58476d1ce4e5b9
  let key := (key ^^^ (key >>> 27)) * 0x94d049bb133111eb
  key ^^^ (key >>> 31)

/-- the loop of hashmap_next_capacity from `next`; `none` once `next` has wrapped to 0, which stays below
`capacity` for ever -/
def hashmapNextCapacityLoop (capacity : Nat) : (next fuel : Nat) → Option Nat
  | _, 0 => none
  | next, fuel + 1 =>
    if next < capacity then hashmapNextCapacityLoop capacity ((next <<< 1) % 2 ^ 64) fuel else some next

/-- hashmap_next_capacity: within 64 doublings `next` passes any size_t or wraps to 0 -/
def hashmapNextCapacity (capacity : Nat) : Option Nat :=
  hashmapNextCapacityLoop capacity HASHMAP_MIN_CAPACITY 64

/-- hashmap_bucket_index -/
def hashmapBucketIndex (hash : UInt64) (bucketCount : Nat) : Nat := hash.toNat &&& (bucketCount - 1)

/-- hashmap_should_grow -/
def hashmapShouldGrow (m : Hashmap α) : Bool :=
  decide ((m.used + 1) * HASHMAP_MAX_LOAD_DEN ≥ m.bucketCount * HASHMAP_MAX_LOAD_NUM)

/-- hashmap_should_rebuild -/
def hashmapShouldRebuild (m : Hashmap α) : Bool :=
  decide (m.used - m.size ≥ HASHMAP_TOMBSTONE_REBUILD_MIN) && decide (m.size ≤ m.used >>> 1)

/-- hashmap_entry_is_occupied, on an entry of the table (never NULL) -/
def hashmapEntryIsOccupied (entry : HashmapEntry α) : Bool := decide (entry.state = .occupied)

/-- the probe loop of hashmap_insert_rehashed: the first bucket from `bucket` on that is not OCCUPIED -/
def insertRehashedLoop (buckets : Nat → HashmapEntry α) (bucketCount : Nat) : (bucket fuel : Nat) → Option Nat
  | _, 0 => none
  | bucket, fuel + 1 =>
    if hashmapEntryIsOccupied (buckets bucket) then
      insertRehashedLoop buckets bucketCount ((bucket + 1) &&& (bucketCount - 1)) fuel
    else some bucket

/-- hashmap_insert_rehashed -/
def hashmapInsertRehashed (buckets : Nat → HashmapEntry α) (bucketCount : Nat) (key : UInt64) (value : α) :
    Option (Nat → HashmapEntry α) :=
  (insertRehashedLoop buckets bucketCount (hashmapBucketIndex (hashmapHashU64 key) bucketCount) bucketCount).map
    fun bucket => Function.update buckets bucket { key := key, value := value, state := .occupied }

variable [Zero α]

/-- an entry of zero bytes, as calloc and memset leave it -/
def HashmapEntry.zero : HashmapEntry α := { key := 0, value := 0, state := .empty }

/-- calloc(nmemb, sizeof(hashmap_entry_t)) of mm/slub.c: NULL when the byte count overflows, else the allocator's
answer, zeroed -/
def calloc (allocOk : Bool) (nmemb : Nat) : Option (Nat → HashmapEntry α) :=
  if nmemb ≠ 0 ∧ SIZEOF_HASHMAP_ENTRY > (2 ^ 64 - 1) / nmemb then none
  else if allocOk then some fun _ => HashmapEntry.zero else none

/-- the copy loop of hashmap_rehash: each OCCUPIED entry of the old buckets, in bucket order, into the new ones -/
def rehashCopy (old : Nat → HashmapEntry α) (oldCount : Nat) (newBuckets : Nat → HashmapEntry α)
    (bucketCount : Nat) : Option (Nat → HashmapEntry α) :=
  (List.range oldCount).foldlM (fun newBuckets i =>
    if hashmapEntryIsOccupied (old i) then
      hashmapInsertRehashed newBuckets bucketCount (old i).key (old i).value
    else some newBuckets) newBuckets

/-- hashmap_rehash: `none` when a loop never ends, else the return code and the map. NULL buckets come with a
`bucket_count` of 0, so the copy loop reads none of them. -/
def hashmapRehash (m : Hashmap α) (allocOk : Bool) (targetCapacity : Nat) : Option (Int × Hashmap α) := do
  let bucketCount ← hashmapNextCapacity targetCapacity
  match calloc allocOk bucketCount with
  | none => some (-ENOMEM, m)
  | some newBuckets =>
    let newBuckets ← rehashCopy (m.buckets.getD fun _ => HashmapEntry.zero) m.bucketCount newBuckets bucketCount
    some (0, { buckets := some newBuckets, bucketCount := bucketCount, size := m.size, used := m.size })

/-- hashmap_init on a map (never NULL): the fields are reset, then rehashed to the capacity asked for, or to
HASHMAP_MIN_CAPACITY for 0 -/
def hashmapInit (allocOk : Bool) (initialCapacity : Nat) : Option (Int × Hashmap α) :=
  hashmapRehash HASHMAP_INIT allocOk (if initialCapacity ≠ 0 then initialCapacity else HASHMAP_MIN_CAPACITY)

/-- hashmap_clear: memset zeroes the `bucket_count` entries of the table -/
def hashmapClear (m : Hashmap α) : Hashmap α :=
  match m.buckets with
  | none => m
  | some _ => { m with buckets := some fun _ => HashmapEntry.zero, size := 0, used := 0 }

/-- hashmap_deinit: the buckets are freed and every field reset -/
def hashmapDeinit : Hashmap α := HASHMAP_INIT

/-- the probe loop of hashmap_get from `bucket` -/
def hashmapGetLoop (buckets : Nat → HashmapEntry α) (bucketCount : Nat) (key : UInt64) :
    (bucket fuel : Nat) → Option α
  | _, 0 => none
  | bucket, fuel + 1 =>
    let entry := buckets bucket
    if entry.state = .empty then some 0
    else if entry.state = .occupied ∧ entry.key = key then some entry.value
    else hashmapGetLoop buckets bucketCount key ((bucket + 1) &&& (bucketCount - 1)) fuel

/-- hashmap_get on a map (never NULL) -/
def hashmapGet (m : Hashmap α) (key : UInt64) : Option α :=
  match m.buckets with
  | none => some 0
  | some buckets =>
    if m.bucketCount = 0 then some 0
    else hashmapGetLoop buckets m.bucketCount key (hashmapBucketIndex (hashmapHashU64 key) m.bucketCount)
      m.bucketCount

/-- the probe loop of hashmap_put from `bucket`, with the first TOMBSTONE it has passed -/
def hashmapPutLoop (m : Hashmap α) (buckets : Nat → HashmapEntry α) (key : UInt64) (value : α) :
    (bucket : Nat) → (firstTombstone : Option Nat) → (fuel : Nat) → Option (Hashmap α)
  | _, _, 0 => none
  | bucket, firstTombstone, fuel + 1 =>
    let entry := buckets bucket
    if entry.state = .empty then
      let target := firstTombstone.getD bucket
      some { m with
        buckets := some (Function.update buckets target { key := key, value := value, state := .occupied })
        used := if target = bucket then m.used + 1 else m.used
        size := m.size + 1 }
    else if entry.state = .occupied ∧ entry.key = key then
      some { m with buckets := some (Function.update buckets bucket { entry with value := value }) }
    else
      hashmapPutLoop m buckets key value ((bucket + 1) &&& (m.bucketCount - 1))
        (if entry.state = .tombstone ∧ firstTombstone = none then some bucket else firstTombstone) fuel

/-- hashmap_put on a map (never NULL): `none` when a loop never ends, else the return code and the map -/
def hashmapPut (m : Hashmap α) (allocOk : Bool) (key : UInt64) (value : α) : Option (Int × Hashmap α) := do
  let (rc, m) ← if m.buckets.isNone ∨ m.bucketCount = 0 then hashmapInit allocOk HASHMAP_MIN_CAPACITY
    else some (0, m)
  if rc < 0 then return (rc, m)
  let (rc, m) ← if hashmapShouldGrow m then hashmapRehash m allocOk (m.bucketCount <<< 1)
    else if hashmapShouldRebuild m then hashmapRehash m allocOk m.bucketCount
    else some (0, m)
  if rc < 0 then return (rc, m)
  match m.buckets with
  -- not reached: a map that init and rehash return with code 0 has its buckets
  | none => none
  | some buckets =>
    let m ← hashmapPutLoop m buckets key value (hashmapBucketIndex (hashmapHashU64 key) m.bucketCount) none
      m.bucketCount
    return (0, m)

/-- the probe loop of hashmap_remove from `bucket` -/
def hashmapRemoveLoop (m : Hashmap α) (buckets : Nat → HashmapEntry α) (key : UInt64) :
    (bucket fuel : Nat) → Option (α × Hashmap α)
  | _, 0 => none
  | bucket, fuel + 1 =>
    let entry := buckets bucket
    if entry.state = .empty then some (0, m)
    else if entry.state = .occupied ∧ entry.key = key then
      let m := { m with
        buckets := some (Function.update buckets bucket { entry with value := 0, state := .tombstone })
        size := m.size - 1 }
      if m.size = 0 then some (entry.value, { m with buckets := some fun _ => HashmapEntry.zero, used := 0 })
      else some (entry.value, m)
    else hashmapRemoveLoop m buckets key ((bucket + 1) &&& (m.bucketCount - 1)) fuel

/-- hashmap_remove on a map (never NULL) -/
def hashmapRemove (m : Hashmap α) (key : UInt64) : Option (α × Hashmap α) :=
  match m.buckets with
  | none => some (0, m)
  | some buckets =>
    if m.bucketCount = 0 then some (0, m)
    else hashmapRemoveLoop m buckets key (hashmapBucketIndex (hashmapHashU64 key) m.bucketCount) m.bucketCount

/-- one call of the interface on a map, with the allocator's answer for the calls that allocate -/
inductive HashmapOp (α : Type) where
  | init (initialCapacity : Nat) (allocOk : Bool)
  | put (key : UInt64) (value : α) (allocOk : Bool)
  | get (key : UInt64)
  | remove (key : UInt64)
  | clear
  | deinit

/-- what a call returns: an int, a pointer, or nothing -/
inductive HashmapRet (α : Type) where
  | code (rc : Int)
  | value (v : α)
  | done
  deriving DecidableEq

/-- one call; `none` when it never returns -/
def hashmapStep (m : Hashmap α) : HashmapOp α → Option (HashmapRet α × Hashmap α)
  | .init initialCapacity allocOk => (hashmapInit allocOk initialCapacity).map fun r => (.code r.1, r.2)
  | .put key value allocOk => (hashmapPut m allocOk key value).map fun r => (.code r.1, r.2)
  | .get key => (hashmapGet m key).map fun v => (.value v, m)
  | .remove key => (hashmapRemove m key).map fun r => (.value r.1, r.2)
  | .clear => some (.done, hashmapClear m)
  | .deinit => some (.done, hashmapDeinit)

/-- calls one after another: what each returns, and the map at the end -/
def hashmapRun (m : Hashmap α) : List (HashmapOp α) → Option (List (HashmapRet α) × Hashmap α)
  | [] => some ([], m)
  | op :: ops => do
    let (r, m) ← hashmapStep m op
    let (rs, m) ← hashmapRun m ops
    return (r :: rs, m)

end Naos.Hash
