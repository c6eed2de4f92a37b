/-
Sequences of calls on the hash map of src/kernel/src/libs/hashmap.c, against the partial function they stand for.

`absStep` is what a call does to the partial function, given what it returned: hashmap_put maps its key to its value
when it returned 0, hashmap_remove unmaps its key, and hashmap_init, hashmap_clear and hashmap_deinit leave no key.
`RetOk` is what a call returns: hashmap_get and hashmap_remove the value the key had, or NULL, and hashmap_init and
hashmap_put 0 or -ENOMEM. `StepOk` is one call that keeps the invariant, returns what `RetOk` says, changes the
partial function as `absStep` says, and leaves the map as it was when a put fails with -ENOMEM; `Runs` strings such
calls together.

From any map that keeps the invariant, every sequence of calls whose inits ask for at most 2^63 buckets returns, and
each of its calls is a `StepOk` (`hashmap_runs`). hashmap_init empties a map that holds keys
(`hashmap_init_forgets`).
-/
import Naos.Libs.HashmapSpec

namespace Naos.Hash

variable {α : Type}

/-- what a call does to the partial function, given what it returned -/
def absStep (A : UInt64 → Option α) : HashmapOp α → HashmapRet α → UInt64 → Option α
  | .init _ _, _ => fun _ => none
  | .put key value _, .code 0 => Function.update A key (some value)
  | .put _ _ _, _ => A
  | .get _, _ => A
  | .remove key, _ => Function.update A key none
  | .clear, _ => fun _ => none
  | .deinit, _ => fun _ => none

/-- the calls whose loops all end: a hashmap_init asks for at most 2^63 buckets -/
def HashmapOp.Returns : HashmapOp α → Prop
  | .init initialCapacity _ => initialCapacity ≤ 2 ^ 63
  | _ => True

theorem hashmapOk_init : HashmapOk (HASHMAP_INIT : Hashmap α) := ⟨rfl, rfl, rfl⟩

theorem content_init : content (HASHMAP_INIT : Hashmap α) = fun _ => none := rfl

variable [Zero α]

/-- what a call returns, on a map that stands for `A` -/
def RetOk (A : UInt64 → Option α) : HashmapOp α → HashmapRet α → Prop
  | .init _ _, r => r = .code 0 ∨ r = .code (-ENOMEM)
  | .put _ _ _, r => r = .code 0 ∨ r = .code (-ENOMEM)
  | .get key, r => r = .value ((A key).getD 0)
  | .remove key, r => r = .value ((A key).getD 0)
  | .clear, r => r = .done
  | .deinit, r => r = .done

/-- one call from `m` that returned `r` and left `m'` kept the invariant and did what the interface says -/
structure StepOk (m : Hashmap α) (op : HashmapOp α) (r : HashmapRet α) (m' : Hashmap α) : Prop where
  inv : HashmapOk m'
  ret : RetOk (content m) op r
  content_eq : content m' = absStep (content m) op r
  enomem : ∀ key value allocOk, op = .put key value allocOk → r = .code (-ENOMEM) → m' = m

/-- a sequence of calls from `m`, each of which returned what it returned and did what `StepOk` says -/
inductive Runs : Hashmap α → List (HashmapOp α) → List (HashmapRet α) → Prop
  | nil (m : Hashmap α) : Runs m [] []
  | cons {m m' : Hashmap α} {op : HashmapOp α} {r : HashmapRet α} {ops : List (HashmapOp α)}
      {rs : List (HashmapRet α)} :
      hashmapStep m op = some (r, m') → StepOk m op r m' → Runs m' ops rs → Runs m (op :: ops) (r :: rs)

/-- every call that returns keeps the invariant and does what the interface says -/
theorem hashmapStep_spec {m : Hashmap α} (hm : HashmapOk m) {op : HashmapOp α} (hop : op.Returns) :
    ∃ r m', hashmapStep m op = some (r, m') ∧ StepOk m op r m' := by
  cases op with
  | init initialCapacity allocOk =>
    rcases hashmapInit_spec (α := α) allocOk hop with henomem | ⟨m', hinit, hm', hc', -, -, -⟩
    · exact ⟨_, _, by simp [hashmapStep, henomem], hashmapOk_init, .inr rfl, content_init, fun _ _ _ h => by cases h⟩
    · exact ⟨_, _, by simp [hashmapStep, hinit], hm', .inl rfl, hc', fun _ _ _ h => by cases h⟩
  | put key value allocOk =>
    rcases hashmapPut_spec hm allocOk key value with ⟨m', hput, hm', hc'⟩ | henomem
    · refine ⟨_, _, by simp [hashmapStep, hput], hm', .inl rfl, by rw [hc']; rfl, ?_⟩
      intro _ _ _ _ hr
      simp [ENOMEM] at hr
    · exact ⟨_, _, by simp [hashmapStep, henomem], hm, .inr rfl, rfl, fun _ _ _ _ _ => rfl⟩
  | get key => exact ⟨_, _, by simp [hashmapStep, hashmapGet_spec hm key], hm, rfl, rfl, fun _ _ _ h => by cases h⟩
  | remove key =>
    obtain ⟨m', hremove, hm', hc'⟩ := hashmapRemove_spec hm key
    exact ⟨_, _, by simp [hashmapStep, hremove], hm', rfl, hc', fun _ _ _ h => by cases h⟩
  | clear =>
    obtain ⟨hm', hc'⟩ := hashmapClear_spec hm
    exact ⟨_, _, rfl, hm', rfl, hc', fun _ _ _ h => by cases h⟩
  | deinit => exact ⟨_, _, rfl, hashmapOk_init, rfl, content_init, fun _ _ _ h => by cases h⟩

/-- from a map that keeps the invariant, every sequence of calls whose inits ask for at most 2^63 buckets returns;
each call keeps the invariant, returns what the partial function says and changes it as the call says, and a put
that fails with -ENOMEM leaves the map as it was -/
theorem hashmap_runs {m : Hashmap α} (hm : HashmapOk m) (ops : List (HashmapOp α))
    (hops : ∀ op ∈ ops, op.Returns) :
    ∃ rs m', hashmapRun m ops = some (rs, m') ∧ Runs m ops rs ∧ HashmapOk m' := by
  induction ops generalizing m with
  | nil => exact ⟨[], m, rfl, .nil m, hm⟩
  | cons op ops ih =>
    obtain ⟨r, m1, hstep, hok⟩ := hashmapStep_spec hm (hops op List.mem_cons_self)
    obtain ⟨rs, m', hrun, hruns, hm'⟩ := ih hok.inv fun op' hop' => hops op' (List.mem_cons_of_mem op hop')
    exact ⟨r :: rs, m', by simp [hashmapRun, hstep, hrun], .cons hstep hok hruns, hm'⟩

/-- a sequence that makes a map, maps a key, reads it, removes it and clears the map -/
theorem hashmap_runs_init :
    ∃ rs m', hashmapRun (HASHMAP_INIT : Hashmap Nat)
        [.init 16 true, .put 1 5 true, .get 1, .remove 1, .clear] = some (rs, m') ∧
      Runs HASHMAP_INIT [.init 16 true, .put 1 5 true, .get 1, .remove 1, .clear] rs ∧ HashmapOk m' :=
  hashmap_runs hashmapOk_init _ fun op hop => by
    simp only [List.mem_cons, List.not_mem_nil, or_false] at hop
    rcases hop with rfl | rfl | rfl | rfl | rfl <;> simp [HashmapOp.Returns]

/-- a hashmap_init of a map that holds a key empties it, though no hashmap_remove or hashmap_clear followed the
hashmap_put; and a hashmap_init that asks for more than 2^63 buckets never returns -/
theorem hashmap_init_forgets :
    (hashmapRun (HASHMAP_INIT : Hashmap Nat) [.put 1 5 true, .init 16 true, .get 1]).map Prod.fst =
      some [.code 0, .code 0, .value 0] ∧
    (hashmapInit true (2 ^ 63 + 1) : Option (Int × Hashmap Nat)) = none := by
  refine ⟨by decide, ?_⟩
  have hhang := hashmapNextCapacity_eq_none (show 2 ^ 63 < 2 ^ 63 + 1 by omega)
  rw [hashmapInit, if_pos (by omega), hashmapRehash, hhang]
  rfl

end Naos.Hash
