import OhMyDb.Lib.Execution

/-!
Serial orders. A call that lets go of its lock on the way takes several steps, and what
others do comes in between. Where the state, once what is under way is completed, changes
by a whole call when a call begins and not at all when one goes on, a run has the effect
of its calls one after the other, in the order they begin in.
-/

namespace Execution
universe u v w
variable {S : Type u} {A : Type v} {H : Type w} {C V : Type*} {step : S → A → Option S}
  {s s₀ : S} {h : List (S × A)} {begins : S → A → Option H} {run : S → H → S}
  {act : C → H → C} {core whole : S → C} {view : S → V}

/-- The calls begun along a history, oldest first. -/
def begun (begins : S → A → Option H) : List (S × A) → List H
  | [] => []
  | p :: h => begun begins h ++ (begins p.1 p.2).toList

/-- What is seen of the state is what some order of the calls leaves, each of them run
without a break. -/
def Serialisable (begins : S → A → Option H) (run : S → H → S) (view : S → V) (s₀ : S)
    (h : List (S × A)) (s : S) : Prop :=
  ∃ order : List H, order.Perm (begun begins h) ∧ view s = view (order.foldl run s₀)

/-- A step is the call it begins, or nothing, to a state seen as completed. -/
theorem Run.whole_eq {ok : S → A → Prop} {I : S → Prop} (r : Run step s₀ h s)
    (meets : Meets ok h) (init : I s₀)
    (preserved : ∀ s a s', I s → ok s a → step s a = some s' →
      I s' ∧ whole s' = (begins s a).toList.foldl act (whole s)) :
    I s ∧ whole s = (begun begins h).foldl act (whole s₀) := by
  induction r with
  | start => exact ⟨init, rfl⟩
  | next _ hs ih =>
      obtain ⟨inv, eq⟩ := ih meets.tail
      obtain ⟨inv', eq'⟩ := preserved _ _ _ inv meets.head hs
      refine ⟨inv', ?_⟩
      rw [eq', eq, begun, List.foldl_append]

/-- The rule for serial orders. -/
theorem Run.serialisable {ok : S → A → Prop} {I : S → Prop} (r : Run step s₀ h s)
    (meets : Meets ok h) (init : I s₀)
    (preserved : ∀ s a s', I s → ok s a → step s a = some s' →
      I s' ∧ whole s' = (begins s a).toList.foldl act (whole s))
    (runs : ∀ s x, act (core s) x = core (run s x)) (first : whole s₀ = core s₀)
    (last : whole s = core s) (seen : ∀ s s', core s = core s' → view s = view s') :
    Serialisable begins run view s₀ h s := by
  refine ⟨begun begins h, .refl _, seen _ _ ?_⟩
  calc core s
    _ = whole s := last.symm
    _ = (begun begins h).foldl act (whole s₀) := (r.whole_eq meets init preserved).2
    _ = (begun begins h).foldl act (core s₀) := by rw [first]
    _ = core ((begun begins h).foldl run s₀) := List.foldl_hom core runs

end Execution
