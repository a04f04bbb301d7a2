import Mathlib.Data.List.Pairwise
import Mathlib.Order.Basic

/-!
Lists that do not decrease and stay below a bound, as numbers do that are handed out by a
counter which only ever grows.
-/

variable {α : Type*}

/-- No element is followed by a smaller one, and none is above the bound. -/
structure Ascending [LE α] (b : α) (xs : List α) : Prop where
  sorted : xs.Pairwise (· ≤ ·)
  le : ∀ x ∈ xs, x ≤ b

namespace Ascending
variable [Preorder α] {b b' : α} {xs ys : List α}

theorem nil (b : α) : Ascending b [] := ⟨.nil, fun _ h => absurd h List.not_mem_nil⟩

theorem mono (h : Ascending b xs) (le : b ≤ b') : Ascending b' xs :=
  ⟨h.sorted, fun x hx => (h.le x hx).trans le⟩

theorem sublist (h : Ascending b xs) (sub : ys.Sublist xs) : Ascending b ys :=
  ⟨h.sorted.sublist sub, fun y hy => h.le y (sub.subset hy)⟩

theorem le_getLast? (h : Ascending b xs) {l : α} (last : l ∈ xs.getLast?) : ∀ x ∈ xs, x ≤ l := by
  intro x hx
  obtain ⟨front, rfl⟩ := List.getLast?_eq_some_iff.mp last
  rcases List.mem_append.mp hx with before | here
  · exact (List.pairwise_append.mp h.sorted).2.2 x before l (List.mem_singleton_self l)
  · exact (List.mem_singleton.mp here).le

theorem head?_le (h : Ascending b xs) {f : α} (first : f ∈ xs.head?) : ∀ x ∈ xs, f ≤ x := by
  intro x hx
  cases xs with
  | nil => cases hx
  | cons y ys =>
      obtain rfl := Option.some.inj first
      rcases List.mem_cons.mp hx with rfl | later
      · exact le_rfl
      · exact List.rel_of_pairwise_cons h.sorted later

/-- Everything that follows is at least as large as what is there. -/
theorem append (h : Ascending b xs) (h' : Ascending b ys) (meet : ∀ x ∈ xs, ∀ y ∈ ys, x ≤ y) :
    Ascending b (xs ++ ys) :=
  ⟨List.pairwise_append.mpr ⟨h.sorted, h'.sorted, meet⟩, fun x hx =>
    (List.mem_append.mp hx).elim (h.le x) (h'.le x)⟩

/-- It is enough to look at the place where the two lists meet. -/
theorem join (h : Ascending b xs) (h' : Ascending b ys)
    (meet : ∀ x ∈ xs.getLast?, ∀ y ∈ ys.head?, x ≤ y) : Ascending b (xs ++ ys) := by
  refine h.append h' fun x hx y hy => ?_
  obtain ⟨l, last⟩ := Option.isSome_iff_exists.mp (List.getLast?_isSome.mpr (List.ne_nil_of_mem hx))
  obtain ⟨f, first⟩ := Option.isSome_iff_exists.mp (List.isSome_head?.mpr (List.ne_nil_of_mem hy))
  exact ((h.le_getLast? last x hx).trans (meet l last f first)).trans (h'.head?_le first y hy)

/-- What is added may be the bound itself. -/
theorem append_bound (h : Ascending b xs) (same : ∀ y ∈ ys, y = b) : Ascending b (xs ++ ys) := by
  have new : Ascending b ys := by
    refine ⟨List.pairwise_iff_forall_sublist.mpr fun {x y} sub => ?_, fun y hy => (same y hy).le⟩
    rw [same x (sub.subset (by simp)), same y (sub.subset (by simp))]
  exact h.append new fun x hx y hy => (same y hy) ▸ h.le x hx

end Ascending
