import Mathlib.Data.List.Basic
import Mathlib.Logic.Relation

/-!
Finite runs of a deterministic labelled machine, kept with the states and labels
they pass through, and the two rules by which facts about single steps become
facts about whole runs: invariants and forward simulations.
-/

namespace Execution
universe u v w
variable {S : Type u} {A : Type v} {B : Type w} {step : S → A → Option S} {s₀ : S}

/-- `Run step s₀ h s`: the machine goes from `s₀` to `s`, and `h` lists the
states it leaves on the way with the label it leaves them by, newest first. -/
inductive Run (step : S → A → Option S) (s₀ : S) : List (S × A) → S → Prop where
  | start : Run step s₀ [] s₀
  | next {h : List (S × A)} {s s' : S} {a : A} :
      Run step s₀ h s → step s a = some s' → Run step s₀ ((s, a) :: h) s'

/-- Every step of the history meets a condition on its state and label. -/
def Meets (ok : S → A → Prop) (h : List (S × A)) : Prop :=
  ∀ p ∈ h, ok p.1 p.2

theorem Meets.head {ok : S → A → Prop} {h : List (S × A)} {p : S × A}
    (m : Meets ok (p :: h)) : ok p.1 p.2 :=
  m p (List.mem_cons_self)

theorem Meets.tail {ok : S → A → Prop} {h : List (S × A)} {p : S × A}
    (m : Meets ok (p :: h)) : Meets ok h :=
  fun q hq => m q (List.mem_cons_of_mem p hq)

instance {ok : S → A → Prop} [∀ s a, Decidable (ok s a)] (h : List (S × A)) :
    Decidable (Meets ok h) :=
  inferInstanceAs (Decidable (∀ p ∈ h, ok p.1 p.2))

theorem Meets.cons {ok : S → A → Prop} {h : List (S × A)} {p : S × A} :
    Meets ok (p :: h) ↔ ok p.1 p.2 ∧ Meets ok h :=
  List.forall_mem_cons

theorem Meets.mono {ok ok' : S → A → Prop} {h : List (S × A)}
    (m : Meets ok h) (imp : ∀ s a, ok s a → ok' s a) : Meets ok' h :=
  fun p hp => imp p.1 p.2 (m p hp)

/-- The invariant rule. The invariant may speak about the history, and each step
may be assumed to meet the run's condition. -/
theorem Run.invariant {ok : S → A → Prop} {I : List (S × A) → S → Prop}
    {h : List (S × A)} {s : S} (run : Run step s₀ h s) (meets : Meets ok h)
    (init : I [] s₀)
    (preserved : ∀ h s a s', I h s → ok s a → step s a = some s' → I ((s, a) :: h) s') :
    I h s := by
  induction run with
  | start => exact init
  | next _ hs ih => exact preserved _ _ _ _ (ih meets.tail) meets.head hs

/-- The rule for invariants of the state alone. -/
theorem Run.stateInvariant {ok : S → A → Prop} {I : S → Prop}
    {h : List (S × A)} {s : S} (run : Run step s₀ h s) (meets : Meets ok h)
    (init : I s₀) (preserved : ∀ s a s', I s → ok s a → step s a = some s' → I s') : I s :=
  run.invariant (I := fun _ s => I s) meets init fun _ => preserved

/-- An unconditional invariant. -/
theorem Run.always {I : S → Prop} {h : List (S × A)} {s : S} (run : Run step s₀ h s)
    (init : I s₀) (preserved : ∀ s a s', I s → step s a = some s' → I s') : I s :=
  run.stateInvariant (show Meets (fun _ _ => True) h from fun _ _ => True.intro) init
    fun s a s' hi _ => preserved s a s' hi

/-- The run that ends where a passed state is left. -/
theorem Run.before {h : List (S × A)} {s : S} (run : Run step s₀ h s) {p : S × A}
    (hp : p ∈ h) : ∃ h' s', Run step s₀ h' p.1 ∧ step p.1 p.2 = some s' ∧ h' ⊆ h := by
  induction run with
  | start => simp at hp
  | @next h s s' a run hs ih =>
      rcases List.mem_cons.mp hp with rfl | hp
      · exact ⟨h, s', run, hs, List.subset_cons_self _ _⟩
      · obtain ⟨h', t, hr, ht, sub⟩ := ih hp
        exact ⟨h', t, hr, ht, List.subset_cons_of_subset _ sub⟩

/-- A run goes on where another has ended. -/
theorem Run.trans {h h' : List (S × A)} {s s' : S} (run : Run step s₀ h s)
    (run' : Run step s h' s') : Run step s₀ (h' ++ h) s' := by
  induction run' with
  | start => exact run
  | next _ hs ih => exact .next ih hs

/-- The forward simulation rule: each step is answered by a sequence of steps of
the abstract relation, from an abstract state that is itself reachable. -/
theorem Run.simulates {ok : S → A → Prop} {R : List (S × A) → S → B → Prop}
    {T : B → B → Prop} {b₀ : B} {h : List (S × A)} {s : S}
    (run : Run step s₀ h s) (meets : Meets ok h) (init : R [] s₀ b₀)
    (preserved : ∀ h s a s' b, Relation.ReflTransGen T b₀ b → R h s b → ok s a →
      step s a = some s' → ∃ b', Relation.ReflTransGen T b b' ∧ R ((s, a) :: h) s' b') :
    ∃ b, Relation.ReflTransGen T b₀ b ∧ R h s b := by
  induction run with
  | start => exact ⟨b₀, .refl, init⟩
  | next _ hs ih =>
      obtain ⟨b, hb, hr⟩ := ih meets.tail
      obtain ⟨b', hb', hr'⟩ := preserved _ _ _ _ b hb hr meets.head hs
      exact ⟨b', hb.trans hb', hr'⟩

/-! A machine that drives another one. -/

section
variable {T : Type w} {B : Type v} {step' : T → B → Option T} {part : S → T}
  {label : S → A → Option B} {h : List (S × A)} {s : S}

/-- The history of the driven machine: `label` says which of its steps a step makes. -/
def driven (part : S → T) (label : S → A → Option B) (h : List (S × A)) : List (T × B) :=
  h.filterMap fun p => (label p.1 p.2).map fun b => (part p.1, b)

/-- The driven machine makes a run of its own. -/
theorem Run.driven (run : Run step s₀ h s)
    (drives : ∀ s a s', step s a = some s' →
      match label s a with
      | none => part s' = part s
      | some b => step' (part s) b = some (part s')) :
    Run step' (part s₀) (driven part label h) (part s) := by
  induction run with
  | start => exact .start
  | @next h s s' a _ hs ih =>
      have moved := drives s a s' hs
      unfold Execution.driven
      rw [List.filterMap_cons]
      cases own : label s a with
      | none =>
          rw [own] at moved
          exact moved ▸ ih
      | some b =>
          rw [own] at moved
          exact .next ih moved

theorem Meets.driven {ok : S → A → Prop} {ok' : T → B → Prop} (m : Meets ok h)
    (imp : ∀ s a, ok s a → ∀ b ∈ label s a, ok' (part s) b) :
    Meets ok' (driven part label h) := by
  intro q hq
  obtain ⟨p, hp, hq⟩ := List.mem_filterMap.mp hq
  obtain ⟨b, hb, rfl⟩ := Option.map_eq_some_iff.mp hq
  exact imp p.1 p.2 (m p hp) b hb

end

/-- The run a list of labels describes. -/
def perform (step : S → A → Option S) : List A → List (S × A) × S → Option (List (S × A) × S)
  | [], p => some p
  | a :: as, (h, s) => (step s a).bind fun s' => perform step as ((s, a) :: h, s')

theorem perform_run {as : List A} {p q : List (S × A) × S}
    (run : Run step s₀ p.1 p.2) (hq : perform step as p = some q) :
    Run step s₀ q.1 q.2 := by
  induction as generalizing p with
  | nil =>
      cases hq
      exact run
  | cons a as ih =>
      obtain ⟨s', hs, hq⟩ := Option.bind_eq_some_iff.mp hq
      exact ih (.next run hs) hq

/-- The run that goes through a list of labels, or the empty run when one of them
cannot be taken. -/
def outcome (step : S → A → Option S) (s₀ : S) (as : List A) : List (S × A) × S :=
  (perform step as ([], s₀)).getD ([], s₀)

theorem outcome_run (step : S → A → Option S) (s₀ : S) (as : List A) :
    Run step s₀ (outcome step s₀ as).1 (outcome step s₀ as).2 := by
  unfold outcome
  cases h : perform step as ([], s₀) with
  | none => exact .start
  | some q => exact perform_run .start h

theorem perform_labels {as : List A} {p q : List (S × A) × S} (hq : perform step as p = some q) :
    ∀ x ∈ q.1, x ∈ p.1 ∨ x.2 ∈ as := by
  induction as generalizing p with
  | nil =>
      cases hq
      exact fun x hx => Or.inl hx
  | cons a as ih =>
      obtain ⟨s', hs, hq⟩ := Option.bind_eq_some_iff.mp hq
      intro x hx
      rcases ih hq x hx with old | later
      · rcases List.mem_cons.mp old with rfl | old
        · exact Or.inr List.mem_cons_self
        · exact Or.inl old
      · exact Or.inr (List.mem_cons_of_mem a later)

/-- A condition on the labels alone. -/
theorem outcome_meets (step : S → A → Option S) (s₀ : S) {as : List A} {ok : A → Prop}
    (h : ∀ a ∈ as, ok a) : Meets (fun _ => ok) (outcome step s₀ as).1 := by
  intro x hx
  unfold outcome at hx
  cases hp : perform step as ([], s₀) with
  | none =>
      rw [hp] at hx
      exact absurd hx List.not_mem_nil
  | some q =>
      rw [hp] at hx
      exact h x.2 ((perform_labels hp x hx).resolve_left List.not_mem_nil)

end Execution
