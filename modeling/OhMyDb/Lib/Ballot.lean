import Mathlib.Data.Set.Insert

/-!
A voter that remembers its vote in one place, which holds `nobody` when there is no
vote to remember. Its votes are one for each term as long as the place speaks for the
term whenever a second candidate of it asks.
-/

namespace Ballot
universe u v
variable {C : Type u} {T : Type v} {nobody : C}

@[ext]
structure Voter (C : Type u) (T : Type v) where
  term : T
  votedFor : C
  votes : Set (C × T)

/-- A voter stays as it is, goes to a term with its vote forgotten, or gives a vote. -/
inductive Step (nobody : C) (v : Voter C T) : Option (C × T) → Voter C T → Prop where
  | keep : Step nobody v none v
  | follow (t : T) : Step nobody v none { v with term := t, votedFor := nobody }
  | vote (c : C) (t : T) : (t = v.term → v.votedFor = nobody ∨ v.votedFor = c) →
      Step nobody v (some (c, t)) { term := t, votedFor := c, votes := insert (c, t) v.votes }

/-- One candidate for each term. -/
def Unique (votes : Set (C × T)) : Prop :=
  ∀ c c' t, (c, t) ∈ votes → (c', t) ∈ votes → c = c'

/-- Unless the place speaks for the term, nobody else has been voted for in it. -/
def Voter.Remembers (nobody : C) (v : Voter C T) (c : C) (t : T) : Prop :=
  (t = v.term → v.votedFor = nobody) → ∀ c', (c', t) ∈ v.votes → c' = c

/-- A vote of the present term is remembered or forgotten, but not taken for another. -/
def Voter.Sound (nobody : C) (v : Voter C T) : Prop :=
  ∀ c, (c, v.term) ∈ v.votes → v.votedFor = c ∨ v.votedFor = nobody

variable {v : Voter C T} {c : C} {t : T}

/-- What makes a vote one too many. -/
theorem Voter.Sound.unique_insert (h : v.Sound nobody)
    (free : t = v.term → v.votedFor = nobody ∨ v.votedFor = c) :
    Unique (insert (c, t) v.votes) ↔ Unique v.votes ∧ v.Remembers nobody c t := by
  constructor
  · intro unique
    refine ⟨fun c₁ c₂ t' h₁ h₂ => unique c₁ c₂ t' (.inr h₁) (.inr h₂), fun _ c' voted => ?_⟩
    exact unique c' c t (.inr voted) (.inl rfl)
  · rintro ⟨unique, remembers⟩
    have same {c' : C} (voted : (c', t) ∈ v.votes) : c' = c := by
      by_cases empty : t = v.term → v.votedFor = nobody
      · exact remembers empty c' voted
      · obtain ⟨rfl, held⟩ := Classical.not_imp.mp empty
        have named := (h c' voted).resolve_right held
        exact named.symm.trans ((free rfl).resolve_left held)
    intro c₁ c₂ t' h₁ h₂
    rcases h₁ with e₁ | h₁ <;> rcases h₂ with e₂ | h₂
    · exact (congrArg Prod.fst e₁).trans (congrArg Prod.fst e₂).symm
    · obtain ⟨rfl, rfl⟩ := Prod.mk.inj e₁
      exact (same h₂).symm
    · obtain ⟨rfl, rfl⟩ := Prod.mk.inj e₂
      exact same h₁
    · exact unique c₁ c₂ t' h₁ h₂

variable {v' : Voter C T} {p : Option (C × T)}

theorem Unique.subset {votes votes' : Set (C × T)} (h : Unique votes') (sub : votes ⊆ votes') :
    Unique votes :=
  fun c c' t voted voted' => h c c' t (sub voted) (sub voted')

theorem Step.subset (st : Step nobody v p v') : v.votes ⊆ v'.votes := by
  cases st with
  | keep | follow t => exact subset_rfl
  | vote c t free => exact Set.subset_insert _ _

/-- A step keeps to one candidate for each term just when its vote is not given over a
forgotten one. -/
theorem Step.unique_iff (h : Unique v.votes → v.Sound nobody) (st : Step nobody v p v') :
    Unique v'.votes ↔ Unique v.votes ∧ ∀ q ∈ p, v.Remembers nobody q.1 q.2 := by
  by_cases unique : Unique v.votes
  · cases st with
    | keep | follow t => simp
    | vote c t free => simpa using (h unique).unique_insert free
  · exact iff_of_false (fun unique' => unique (unique'.subset st.subset)) fun both =>
      unique both.1

theorem Step.sound (h : Unique v.votes → v.Sound nobody) (st : Step nobody v p v') :
    Unique v'.votes → v'.Sound nobody := by
  intro unique
  cases st with
  | keep => exact h unique
  | follow t => exact fun _ _ => .inr rfl
  | vote c t free => exact fun c' voted => .inl (unique c c' t (.inl rfl) voted)

end Ballot
