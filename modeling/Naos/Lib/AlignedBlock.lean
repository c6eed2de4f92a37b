/-
Aligned power-of-two blocks of a linear index space, the arithmetic of a binary buddy system.

A block `(b, k)` is the interval `[b, b + 2^k)`; it is aligned when `2^k ∣ b`. The buddy of an aligned block of
order `k` is the block at `b ^^^ 2^k`: the other half of the aligned block of order `k + 1` that contains both.
Merging two buddies gives that block; splitting an aligned block of order `k + 1` gives two buddies of order `k`.

Then a block as a set of indices, the indices a list of blocks covers, and lists of pairwise disjoint blocks: merging
two buddies or splitting a block in two keeps a list pairwise disjoint and its cover unchanged.

The last part is about a family of block lists indexed by order: adding or removing one block from one member
permutes the concatenation by one element, which keeps pairwise facts and sums.
-/
import Mathlib

namespace AlignedBlock

/-! ## Blocks as intervals -/

/-- `q` lies in the block `(b, k)` -/
def Mem (q : Nat) (a : Nat × Nat) : Prop := a.1 ≤ q ∧ q < a.1 + 2 ^ a.2

instance (q : Nat) (a : Nat × Nat) : Decidable (Mem q a) := inferInstanceAs (Decidable (_ ∧ _))

/-- two blocks share no index -/
def Disjoint (a c : Nat × Nat) : Prop := a.1 + 2 ^ a.2 ≤ c.1 ∨ c.1 + 2 ^ c.2 ≤ a.1

instance (a c : Nat × Nat) : Decidable (Disjoint a c) := inferInstanceAs (Decidable (_ ∨ _))

theorem Disjoint.symm {a c : Nat × Nat} (h : Disjoint a c) : Disjoint c a := Or.symm h

theorem disjoint_iff_not_mem {a c : Nat × Nat} : Disjoint a c ↔ ∀ q, Mem q a → ¬ Mem q c := by
  obtain ⟨b, k⟩ := a
  obtain ⟨d, j⟩ := c
  have hk : 1 ≤ 2 ^ k := Nat.one_le_two_pow
  have hj : 1 ≤ 2 ^ j := Nat.one_le_two_pow
  simp only [Disjoint, Mem]
  constructor
  · intro h q hq hq'
    omega
  · intro h
    by_contra hne
    rcases Nat.lt_or_ge b d with hbd | hbd
    · exact h d ⟨by omega, by omega⟩ ⟨le_refl d, by omega⟩
    · exact h b ⟨le_refl b, by omega⟩ ⟨hbd, by omega⟩

theorem mem_self (a : Nat × Nat) : Mem a.1 a := ⟨le_refl _, Nat.lt_add_of_pos_right (Nat.two_pow_pos _)⟩

/-! ## Buddies -/

/-- on an aligned start, `^^^ 2^k` flips the bit just above the block: up by `2^k` or down by `2^k` -/
theorem xor_two_pow_of_dvd {b k : Nat} (h : 2 ^ k ∣ b) :
    b ^^^ 2 ^ k = if b / 2 ^ k % 2 = 0 then b + 2 ^ k else b - 2 ^ k := by
  obtain ⟨m, rfl⟩ := h
  have hshift : 2 ^ k * m ^^^ 2 ^ k = (m ^^^ 1) * 2 ^ k := by
    rw [← Nat.shiftLeft_eq, Nat.shiftLeft_xor_distrib, Nat.shiftLeft_eq, Nat.shiftLeft_eq, one_mul, mul_comm]
  rw [hshift, Nat.mul_div_cancel_left _ (Nat.two_pow_pos k)]
  split_ifs with hm
  · rw [Nat.xor_one_of_even (Nat.even_iff.mpr hm)]
    ring
  · rw [Nat.xor_one_of_odd (Nat.odd_iff.mpr (by omega)), Nat.sub_mul, one_mul, mul_comm]

theorem xor_two_pow_xor_two_pow (b k : Nat) : b ^^^ 2 ^ k ^^^ 2 ^ k = b := by
  rw [Nat.xor_assoc, Nat.xor_self, Nat.xor_zero]

/-- the lower of two buddies starts the aligned block of the next order, and the upper follows it directly -/
theorem buddy_min_max {b k : Nat} (h : 2 ^ k ∣ b) :
    2 ^ (k + 1) ∣ min b (b ^^^ 2 ^ k) ∧ min b (b ^^^ 2 ^ k) + 2 ^ k = max b (b ^^^ 2 ^ k) := by
  obtain ⟨m, rfl⟩ := h
  rw [xor_two_pow_of_dvd (Dvd.intro m rfl), Nat.mul_div_cancel_left _ (Nat.two_pow_pos k), pow_succ]
  have hpos := Nat.two_pow_pos k
  split_ifs with hm
  · obtain ⟨r, rfl⟩ : 2 ∣ m := Nat.dvd_of_mod_eq_zero hm
    refine ⟨⟨r, by rw [min_eq_left (by omega)]; ring⟩, by rw [min_eq_left (by omega), max_eq_right (by omega)]⟩
  · obtain ⟨r, hr⟩ : ∃ r, m = 2 * r + 1 := ⟨m / 2, by omega⟩
    subst hr
    have hsub : 2 ^ k * (2 * r + 1) - 2 ^ k = 2 ^ k * 2 * r := by
      rw [Nat.mul_add, mul_one, Nat.add_sub_cancel]; ring
    rw [hsub]
    refine ⟨⟨r, by rw [min_eq_right (by nlinarith)]⟩, ?_⟩
    rw [min_eq_right (by nlinarith), max_eq_left (by nlinarith)]
    ring

theorem xor_two_pow_ne (b k : Nat) : b ^^^ 2 ^ k ≠ b := by
  intro h
  have := congrArg (fun v => v.testBit k) h
  simp at this

/-- a block disjoint from both buddies is disjoint from their merge -/
theorem Disjoint.merge {c : Nat × Nat} {b k : Nat} (h : 2 ^ k ∣ b) (h₁ : Disjoint c (b, k))
    (h₂ : Disjoint c (b ^^^ 2 ^ k, k)) : Disjoint c (min b (b ^^^ 2 ^ k), k + 1) := by
  have hx := xor_two_pow_of_dvd h
  have hc : 1 ≤ 2 ^ c.2 := Nat.one_le_two_pow
  simp only [Disjoint, pow_succ] at *
  split_ifs at hx
  · rw [hx] at h₂ ⊢
    rw [min_eq_left (by omega)]
    omega
  · have hle : 2 ^ k ≤ b := by
      obtain ⟨m, rfl⟩ := h
      have : m ≠ 0 := by rintro rfl; simp_all
      exact Nat.le_mul_of_pos_right _ (Nat.pos_of_ne_zero this)
    rw [hx] at h₂ ⊢
    rw [min_eq_right (by omega)]
    omega

/-- the two halves of an aligned block of order `k + 1` -/
theorem dvd_add_half {b k : Nat} (h : 2 ^ (k + 1) ∣ b) : 2 ^ k ∣ b ∧ 2 ^ k ∣ b + 2 ^ k :=
  ⟨Nat.dvd_trans (pow_dvd_pow 2 (Nat.le_succ k)) h,
    Nat.dvd_add (Nat.dvd_trans (pow_dvd_pow 2 (Nat.le_succ k)) h) dvd_rfl⟩

theorem xor_two_pow_of_dvd_succ {b k : Nat} (h : 2 ^ (k + 1) ∣ b) : (b + 2 ^ k) ^^^ 2 ^ k = b := by
  have hb : b ^^^ 2 ^ k = b + 2 ^ k := by
    rw [xor_two_pow_of_dvd (dvd_add_half h).1]
    obtain ⟨m, rfl⟩ := h
    rw [pow_succ, mul_assoc, Nat.mul_div_cancel_left _ (Nat.two_pow_pos k), if_pos (by simp)]
  rw [← hb, xor_two_pow_xor_two_pow]

/-- a block inside a block is disjoint from whatever the outer one is disjoint from -/
theorem Disjoint.mono {a c d : Nat × Nat} (h : Disjoint a c) (hd : c.1 ≤ d.1 ∧ d.1 + 2 ^ d.2 ≤ c.1 + 2 ^ c.2) :
    Disjoint a d := by
  simp only [Disjoint] at *
  omega

/-- an aligned block of order `j` containing `q` starts at `q` rounded down to a multiple of `2^j` -/
theorem eq_round_of_mem {q b j : Nat} (hb : 2 ^ j ∣ b) (hq : Mem q (b, j)) : b = q - q % 2 ^ j := by
  obtain ⟨m, rfl⟩ := hb
  simp only [Mem] at hq
  have hlt : q - 2 ^ j * m < 2 ^ j := by omega
  have hmod : q % 2 ^ j = q - 2 ^ j * m := by
    rw [show q = (q - 2 ^ j * m) + 2 ^ j * m by omega, Nat.add_mul_mod_self_left, Nat.mod_eq_of_lt hlt]
    omega
  omega

/-! ## Blocks as sets, and lists of pairwise disjoint blocks -/

instance : Std.Symm Disjoint := ⟨fun _ _ h => h.symm⟩

/-- the indices of a block -/
def toSet (a : Nat × Nat) : Set Nat := {q | Mem q a}

/-- the indices covered by a list of blocks -/
def cover (l : List (Nat × Nat)) : Set Nat := {q | ∃ a ∈ l, Mem q a}

@[simp] theorem mem_toSet {q : Nat} {a : Nat × Nat} : q ∈ toSet a ↔ Mem q a := Iff.rfl

@[simp] theorem mem_cover {q : Nat} {l : List (Nat × Nat)} : q ∈ cover l ↔ ∃ a ∈ l, Mem q a := Iff.rfl

theorem cover_cons (a : Nat × Nat) (l : List (Nat × Nat)) : cover (a :: l) = toSet a ∪ cover l := by
  ext q
  simp

theorem cover_append (l l' : List (Nat × Nat)) : cover (l ++ l') = cover l ∪ cover l' := by
  ext q
  simp only [mem_cover, List.mem_append, Set.mem_union]
  constructor
  · rintro ⟨a, ha | ha, hq⟩
    · exact .inl ⟨a, ha, hq⟩
    · exact .inr ⟨a, ha, hq⟩
  · rintro (⟨a, ha, hq⟩ | ⟨a, ha, hq⟩)
    · exact ⟨a, .inl ha, hq⟩
    · exact ⟨a, .inr ha, hq⟩

theorem cover_eq_of_perm {l l' : List (Nat × Nat)} (h : l.Perm l') : cover l = cover l' := by
  ext q
  simp only [mem_cover, h.mem_iff]

/-- two buddies make up their merge -/
theorem toSet_merge {b k : Nat} (h : 2 ^ k ∣ b) :
    toSet (min b (b ^^^ 2 ^ k), k + 1) = toSet (b, k) ∪ toSet (b ^^^ 2 ^ k, k) := by
  have hmm := (buddy_min_max h).2
  ext q
  simp only [mem_toSet, Set.mem_union, Mem, pow_succ]
  rcases le_total b (b ^^^ 2 ^ k) with hle | hle
  · rw [min_eq_left hle] at hmm ⊢
    rw [max_eq_right hle] at hmm
    omega
  · rw [min_eq_right hle] at hmm ⊢
    rw [max_eq_left hle] at hmm
    omega

/-- an aligned block of order `k + 1` is its two halves -/
theorem toSet_split {b k : Nat} : toSet (b, k + 1) = toSet (b, k) ∪ toSet (b + 2 ^ k, k) := by
  ext q
  simp only [mem_toSet, Set.mem_union, Mem, pow_succ]
  omega

theorem pairwise_disjoint_perm {l l' : List (Nat × Nat)} (h : l.Perm l') :
    l.Pairwise Disjoint ↔ l'.Pairwise Disjoint :=
  h.pairwise_iff Disjoint.symm

theorem Disjoint.of_pairwise {l : List (Nat × Nat)} {a c : Nat × Nat} (hl : l.Pairwise Disjoint) (ha : a ∈ l)
    (hc : c ∈ l) (hac : a ≠ c) : Disjoint a c :=
  hl.forall ha hc hac

/-- a block is disjoint from each block of a list exactly when it misses what the list covers -/
theorem forall_disjoint_iff {a : Nat × Nat} {l : List (Nat × Nat)} :
    (∀ c ∈ l, Disjoint a c) ↔ ∀ q, Mem q a → q ∉ cover l := by
  constructor
  · rintro h q hq ⟨c, hc, hqc⟩
    exact (disjoint_iff_not_mem).mp (h c hc) q hq hqc
  · intro h c hc
    exact (disjoint_iff_not_mem).mpr fun q hq hqc => h q hq ⟨c, hc, hqc⟩

theorem pairwise_cons_iff {a : Nat × Nat} {l : List (Nat × Nat)} :
    (a :: l).Pairwise Disjoint ↔ (∀ q, Mem q a → q ∉ cover l) ∧ l.Pairwise Disjoint := by
  rw [List.pairwise_cons, forall_disjoint_iff]

/-- merging two buddies at the front of a pairwise disjoint list keeps it pairwise disjoint -/
theorem pairwise_merge {b k : Nat} {l : List (Nat × Nat)} (h : 2 ^ k ∣ b)
    (hl : ((b, k) :: (b ^^^ 2 ^ k, k) :: l).Pairwise Disjoint) :
    ((min b (b ^^^ 2 ^ k), k + 1) :: l).Pairwise Disjoint := by
  obtain ⟨hb, hbl⟩ := List.pairwise_cons.mp hl
  obtain ⟨hy, hrest⟩ := List.pairwise_cons.mp hbl
  refine List.pairwise_cons.mpr ⟨fun c hc => ?_, hrest⟩
  have h₁ : Disjoint c (b, k) := (hb c (List.mem_cons_of_mem _ hc)).symm
  have h₂ : Disjoint c (b ^^^ 2 ^ k, k) := (hy c hc).symm
  exact (Disjoint.merge h h₁ h₂).symm

/-- splitting an aligned block at the front of a pairwise disjoint list into its halves keeps it pairwise
disjoint -/
theorem pairwise_split {b k : Nat} {l : List (Nat × Nat)} (hl : ((b, k + 1) :: l).Pairwise Disjoint) :
    ((b + 2 ^ k, k) :: (b, k) :: l).Pairwise Disjoint := by
  obtain ⟨hb, hrest⟩ := List.pairwise_cons.mp hl
  have hk : 1 ≤ 2 ^ k := Nat.one_le_two_pow
  have hhalf : ∀ d : Nat × Nat, (b, k + 1).1 ≤ d.1 → d.1 + 2 ^ d.2 ≤ (b, k + 1).1 + 2 ^ (b, k + 1).2 →
      ∀ c ∈ l, Disjoint d c := fun d h₁ h₂ c hc => ((hb c hc).symm.mono ⟨h₁, h₂⟩).symm
  refine List.pairwise_cons.mpr ⟨?_, List.pairwise_cons.mpr ⟨?_, hrest⟩⟩
  · intro c hc
    rcases List.mem_cons.mp hc with rfl | hc
    · exact .inr (le_refl _)
    · exact hhalf _ (by simp) (by simp [pow_succ]; omega) c hc
  · exact hhalf _ (le_refl _) (by simp [pow_succ])

/-! ## Families of block lists indexed by order -/

/-- changing one member of a family, by adding one element up to permutation, permutes the concatenation by that
element -/
theorem perm_flatMap_range_cons {α : Type*} {f g : Nat → List α} {n i : Nat} (hi : i < n) (a : α)
    (hg : (g i).Perm (a :: f i)) (hj : ∀ j < n, j ≠ i → g j = f j) :
    ((List.range n).flatMap g).Perm (a :: (List.range n).flatMap f) := by
  induction n with
  | zero => exact absurd hi (Nat.not_lt_zero _)
  | succ m ih =>
    rw [List.range_succ, List.flatMap_append, List.flatMap_append, List.flatMap_singleton,
      List.flatMap_singleton]
    by_cases him : i = m
    · subst him
      have hlow : (List.range i).flatMap g = (List.range i).flatMap f :=
        List.flatMap_congr fun j hj' =>
          hj j (by have := List.mem_range.mp hj'; omega) (Nat.ne_of_lt (List.mem_range.mp hj'))
      rw [hlow]
      exact (hg.append_left _).trans List.perm_middle
    · rw [hj m (by omega) (Ne.symm him)]
      exact (ih (by omega) fun j hjm hji => hj j (by omega) hji).append_right _

theorem flatMap_range_congr {α : Type*} {f g : Nat → List α} {n : Nat} (h : ∀ j < n, g j = f j) :
    (List.range n).flatMap g = (List.range n).flatMap f :=
  List.flatMap_congr fun j hj => h j (List.mem_range.mp hj)

/-- in a family whose concatenation has no repeats, an element belongs to one member only -/
theorem flatMap_range_mem_unique {α : Type*} {f : Nat → List α} {n i j : Nat} {a : α}
    (hnd : ((List.range n).flatMap f).Nodup) (hi : i < n) (hj : j < n) (hai : a ∈ f i) (haj : a ∈ f j) :
    i = j := by
  induction n with
  | zero => exact absurd hi (Nat.not_lt_zero _)
  | succ m ih =>
    rw [List.range_succ, List.flatMap_append, List.flatMap_singleton] at hnd
    obtain ⟨hlow, -, hdisj⟩ := List.nodup_append.mp hnd
    have hmem {k : Nat} (hk : k < m) (hak : a ∈ f k) : a ∈ (List.range m).flatMap f :=
      List.mem_flatMap.mpr ⟨k, List.mem_range.mpr hk, hak⟩
    rcases Nat.lt_succ_iff_lt_or_eq.mp hi with hi' | rfl <;>
      rcases Nat.lt_succ_iff_lt_or_eq.mp hj with hj' | rfl
    · exact ih hlow hi' hj'
    · exact absurd rfl (hdisj _ (hmem hi' hai) _ haj)
    · exact absurd rfl (hdisj _ (hmem hj' haj) _ hai)
    · rfl

end AlignedBlock
