import Mathlib.Data.List.Pairwise
import Mathlib.Order.Lattice

/-!
Ordered maps whose values hold their own keys: lists in the order of the keys, with no key
twice.
-/

namespace Keyed
variable {α κ : Type*} [LinearOrder κ] (key : α → κ)

def Sorted (xs : List α) : Prop :=
  xs.Pairwise fun x y => key x < key y

/-- The value takes the place of the one with its key. -/
def assign (x : α) : List α → List α
  | [] => [x]
  | y :: ys =>
      if key x < key y then x :: y :: ys
      else if key y < key x then y :: assign x ys
      else x :: ys

variable {key}

theorem mem_assign {x z : α} {ys : List α} (mem : z ∈ assign key x ys) : z = x ∨ z ∈ ys := by
  induction ys with
  | nil => exact Or.inl (List.mem_singleton.mp mem)
  | cons y ys ih =>
      rw [assign] at mem
      split_ifs at mem
      · exact List.mem_cons.mp mem
      · rcases List.mem_cons.mp mem with rfl | mem
        · exact Or.inr List.mem_cons_self
        · exact (ih mem).imp_right (List.mem_cons_of_mem y)
      · exact (List.mem_cons.mp mem).imp_right (List.mem_cons_of_mem y)

theorem mem_assign_self (x : α) (ys : List α) : x ∈ assign key x ys := by
  induction ys with
  | nil => exact List.mem_singleton_self x
  | cons y ys ih =>
      rw [assign]
      split_ifs
      · exact List.mem_cons_self
      · exact List.mem_cons_of_mem y ih
      · exact List.mem_cons_self

theorem Sorted.assign {ys : List α} (h : Sorted key ys) (x : α) :
    Sorted key (assign key x ys) := by
  induction ys with
  | nil => exact List.pairwise_singleton _ x
  | cons y ys ih =>
      obtain ⟨first, later⟩ := List.pairwise_cons.mp h
      rw [Keyed.assign]
      split_ifs with before after
      · refine List.pairwise_cons.mpr ⟨fun z mem => ?_, h⟩
        rcases List.mem_cons.mp mem with rfl | mem
        · exact before
        · exact before.trans (first z mem)
      · refine List.pairwise_cons.mpr ⟨fun z mem => ?_, ih later⟩
        rcases mem_assign mem with rfl | mem
        · exact after
        · exact first z mem
      · have same : key x = key y := le_antisymm (not_lt.mp after) (not_lt.mp before)
        exact List.pairwise_cons.mpr ⟨fun z mem => same ▸ first z mem, later⟩

theorem assign_of_lt {x : α} {ys : List α} (last : ∀ y ∈ ys, key y < key x) :
    assign key x ys = ys ++ [x] := by
  induction ys with
  | nil => rfl
  | cons y ys ih =>
      have before := last y List.mem_cons_self
      rw [assign, if_neg before.asymm, if_pos before,
        ih fun z mem => last z (List.mem_cons_of_mem y mem)]
      rfl

/-- A map is rebuilt from its values. -/
theorem foldl_assign {ys xs : List α} (h : Sorted key (ys ++ xs)) :
    xs.foldl (fun m x => assign key x m) ys = ys ++ xs := by
  induction xs generalizing ys with
  | nil => exact (List.append_nil ys).symm
  | cons x xs ih =>
      have last : ∀ y ∈ ys, key y < key x := fun y mem =>
        (List.pairwise_append.mp h).2.2 y mem x List.mem_cons_self
      rw [List.foldl_cons, assign_of_lt last, ih, List.append_assoc]
      · rfl
      · rwa [List.append_assoc]

end Keyed
