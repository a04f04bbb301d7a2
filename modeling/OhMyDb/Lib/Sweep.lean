import Mathlib.Order.Interval.Finset.Nat
import Mathlib.Data.Int.Interval

/-!
An index that goes through a set of ids with gaps and enters each id it passes. It wraps when
it has reached the number of ids there are, which grows on the way: the ids ahead of the index
keep it from wrapping before the greatest of them.
-/

namespace Sweep

/-- The index after `i`, once `i` has been entered. -/
def next (ids : Finset ℤ) (i : ℕ) : ℕ :=
  if i + 1 ≥ (insert (i : ℤ) ids).card then 0 else i + 1

/-- `M` is the greatest id, and the ids the index has passed are known. -/
structure Ahead (M : ℕ) (ids : Finset ℤ) (i : ℕ) : Prop where
  range : ∀ id ∈ ids, 0 ≤ id ∧ id ≤ (M : ℤ)
  top : (M : ℤ) ∈ ids
  le : i ≤ M
  passed : ∀ j < i, (j : ℤ) ∈ ids

namespace Ahead
variable {M i : ℕ} {ids : Finset ℤ}

theorem enter_range (h : Ahead M ids i) :
    ∀ id ∈ insert (i : ℤ) ids, 0 ≤ id ∧ id ≤ (M : ℤ) := by
  rw [Finset.forall_mem_insert]
  exact ⟨⟨Int.natCast_nonneg i, Int.ofNat_le.mpr h.le⟩, h.range⟩

theorem passed_or (h : Ahead M ids i) {j : ℕ} (le : j ≤ i) : (j : ℤ) ∈ insert (i : ℤ) ids := by
  rcases Nat.lt_or_eq_of_le le with lt | rfl
  · exact Finset.mem_insert_of_mem (h.passed j lt)
  · exact Finset.mem_insert_self _ _

/-- The ids that are passed, and the greatest one where it is still ahead. -/
theorem lt_card (h : Ahead M ids i) (lt : i < M) : i + 1 < (insert (i : ℤ) ids).card := by
  have known : insert (M : ℤ) ((Finset.range (i + 1)).image (Nat.cast : ℕ → ℤ)) ⊆
      insert (i : ℤ) ids := by
    apply Finset.insert_subset (Finset.mem_insert_of_mem h.top)
    intro id mem
    obtain ⟨j, before, rfl⟩ := Finset.mem_image.mp mem
    exact h.passed_or (Nat.lt_succ_iff.mp (Finset.mem_range.mp before))
  have ahead : (M : ℤ) ∉ (Finset.range (i + 1)).image (Nat.cast : ℕ → ℤ) := by
    intro mem
    obtain ⟨j, before, eq⟩ := Finset.mem_image.mp mem
    rw [Finset.mem_range] at before
    omega
  have card := Finset.card_le_card known
  rw [Finset.card_insert_of_notMem ahead, Finset.card_image_of_injective _ Nat.cast_injective,
    Finset.card_range] at card
  exact card

theorem card_le (h : Ahead M ids i) : (insert (i : ℤ) ids).card ≤ M + 1 := by
  have inside : insert (i : ℤ) ids ⊆ Finset.Icc 0 (M : ℤ) := fun id mem =>
    Finset.mem_Icc.mpr (h.enter_range id mem)
  apply (Finset.card_le_card inside).trans_eq
  rw [Int.card_Icc]
  omega

theorem next_eq (h : Ahead M ids i) : next ids i = (i + 1) % (M + 1) := by
  unfold next
  rcases Nat.lt_or_eq_of_le h.le with lt | rfl
  · rw [if_neg (Nat.not_le.mpr (h.lt_card lt)), Nat.mod_eq_of_lt (Nat.succ_lt_succ lt)]
  · rw [if_pos h.card_le, Nat.mod_self]

theorem step (h : Ahead M ids i) : Ahead M (insert (i : ℤ) ids) (next ids i) where
  range := h.enter_range
  top := Finset.mem_insert_of_mem h.top
  le := by
    rw [h.next_eq]
    exact Nat.lt_succ_iff.mp (Nat.mod_lt _ M.succ_pos)
  passed j lt := by
    rw [h.next_eq] at lt
    exact h.passed_or (Nat.lt_succ_iff.mp (lt.trans_le (Nat.mod_le _ _)))

theorem start (range : ∀ id ∈ ids, 0 ≤ id ∧ id ≤ (M : ℤ)) (top : (M : ℤ) ∈ ids) :
    Ahead M ids 0 :=
  ⟨range, top, M.zero_le, fun _ lt => absurd lt (Nat.not_lt_zero _)⟩

end Ahead

/-- A list that counts modulo its length has each remainder once. -/
theorem perm_range {xs : List ℕ} {first : ℕ}
    (counts : ∀ k (h : k < xs.length), xs[k] = (first + k) % xs.length) :
    xs.Perm (List.range xs.length) := by
  have eq : xs = (List.range' first xs.length).map (· % xs.length) := by
    apply List.ext_getElem
    · simp
    · intro k here _
      simp [counts k here]
  have interval : Multiset.Ico first (first + xs.length) = List.range' first xs.length := by
    show (List.range' first (first + xs.length - first) : Multiset ℕ) = _
    rw [Nat.add_sub_cancel_left]
  apply Multiset.coe_eq_coe.mp
  calc (xs : Multiset ℕ)
      = ((List.range' first xs.length).map (· % xs.length) : List ℕ) := congrArg _ eq
    _ = (Multiset.Ico first (first + xs.length)).map (· % xs.length) := by
        rw [interval, Multiset.map_coe]
    _ = Multiset.range xs.length := Nat.multiset_Ico_map_mod first xs.length

end Sweep
