import Mathlib.Data.Finset.Card

/-!
Quorum systems: families of sets any two of which meet. Strict majorities of a
finite set of members are the case used by voting protocols.
-/

namespace Quorum
variable {N : Type*}

structure System (N : Type*) where
  IsQuorum : Finset N → Prop
  meet : ∀ A B, IsQuorum A → IsQuorum B → ∃ v, v ∈ A ∧ v ∈ B

variable [DecidableEq N]

/-- A strict majority of the members. -/
def IsMajority (members A : Finset N) : Prop :=
  A ⊆ members ∧ members.card < 2 * A.card

theorem IsMajority.meet {members A B : Finset N}
    (hA : IsMajority members A) (hB : IsMajority members B) : ∃ v, v ∈ A ∧ v ∈ B := by
  by_contra h
  have disjoint : Disjoint A B :=
    Finset.disjoint_left.mpr fun v ha hb => h ⟨v, ha, hb⟩
  have union : (A ∪ B).card ≤ members.card :=
    Finset.card_le_card (Finset.union_subset hA.1 hB.1)
  rw [Finset.card_union_of_disjoint disjoint] at union
  have := hA.2
  have := hB.2
  omega

def majorities (members : Finset N) : System N where
  IsQuorum := IsMajority members
  meet _ _ := IsMajority.meet

end Quorum
