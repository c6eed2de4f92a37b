/-
Queues kept in a ring of slots.

A ring of `cap` slots holds a queue of `n` elements from slot `head` on, wrapping around at `cap`: the `k`-th element
of the queue is in slot `(head + k) % cap`. `window slots head cap n` is the queue, front first.

The lemmas are those a ring of buffers needs: writing a slot outside the queue keeps it; writing the slot after the
last element (a push) or the last element's slot (an update of the back) puts the written value last; moving the
head one slot on drops the front; writing the head slot replaces the front.
-/
import Mathlib

namespace Ring

variable {α : Type*}

/-- the `n` elements of the ring from slot `head` on, front first -/
def window (slots : Nat → α) (head cap : Nat) : Nat → List α
  | 0 => []
  | n + 1 => window slots head cap n ++ [slots ((head + n) % cap)]

variable {slots : Nat → α} {head cap : Nat}

@[simp] theorem window_zero : window slots head cap 0 = [] := rfl

theorem window_succ (n : Nat) :
    window slots head cap (n + 1) = window slots head cap n ++ [slots ((head + n) % cap)] := rfl

@[simp] theorem length_window (n : Nat) : (window slots head cap n).length = n := by
  induction n with
  | zero => rfl
  | succ n ih => simp [window_succ, ih]

/-- two places of a queue shorter than the ring are in different slots -/
theorem slot_ne {a b : Nat} (hab : a < b) (hb : b < cap) : (head + a) % cap ≠ (head + b) % cap := by
  intro h
  have hmod := Nat.ModEq.add_left_cancel' head h
  rw [Nat.ModEq, Nat.mod_eq_of_lt (by omega), Nat.mod_eq_of_lt hb] at hmod
  omega

/-- a write to a slot that holds none of the `n` elements keeps the queue -/
theorem window_update_of_ne {i : Nat} {v : α} {n : Nat} (hi : ∀ k < n, (head + k) % cap ≠ i) :
    window (Function.update slots i v) head cap n = window slots head cap n := by
  induction n with
  | zero => rfl
  | succ n ih =>
    rw [window_succ, window_succ, ih fun k hk => hi k (by omega), Function.update_of_ne (hi n (by omega))]

/-- writing the slot after the last of `n` elements, or the last element's slot, puts the value last -/
theorem window_update_last {v : α} {n : Nat} (hn : n < cap) :
    window (Function.update slots ((head + n) % cap) v) head cap (n + 1) = window slots head cap n ++ [v] := by
  rw [window_succ, window_update_of_ne fun k hk => slot_ne hk hn, Function.update_self]

/-- the `k`-th slot after the next one is the `k + 1`-th after the head -/
theorem slot_next (k : Nat) : ((head + 1) % cap + k) % cap = (head + (k + 1)) % cap := by
  rw [Nat.mod_add_mod]
  ring_nf

/-- the front element is in the head slot, and the rest of the queue starts at the next slot -/
theorem window_succ_eq_cons (hhead : head < cap) (n : Nat) :
    window slots head cap (n + 1) = slots head :: window slots ((head + 1) % cap) cap n := by
  induction n with
  | zero => simp [window_succ, Nat.mod_eq_of_lt hhead]
  | succ n ih => rw [window_succ, ih, window_succ, slot_next]; rfl

/-- moving the head one slot on drops the front -/
theorem window_tail (hhead : head < cap) (n : Nat) :
    window slots ((head + 1) % cap) cap n = (window slots head cap (n + 1)).tail := by
  rw [window_succ_eq_cons hhead]
  rfl

/-- the slots after the head, as many as the ring has besides it, do not include the head -/
theorem window_next_update_head {v : α} {n : Nat} (hhead : head < cap) (hn : n + 1 ≤ cap) :
    window (Function.update slots head v) ((head + 1) % cap) cap n = window slots ((head + 1) % cap) cap n := by
  apply window_update_of_ne
  intro k hk
  have h : (head + 0) % cap ≠ (head + (k + 1)) % cap := slot_ne (by omega) (by omega)
  rwa [Nat.add_zero, Nat.mod_eq_of_lt hhead, ← slot_next, ne_comm] at h

/-- writing the head slot replaces the front -/
theorem window_update_head {v : α} {n : Nat} (hhead : head < cap) (hn : n + 1 ≤ cap) :
    window (Function.update slots head v) head cap (n + 1) = v :: window slots ((head + 1) % cap) cap n := by
  rw [window_succ_eq_cons hhead, Function.update_self, window_next_update_head hhead hn]

end Ring
