/-!
Objects that are used by one call after the other. A call that throws is the last one.
A relation between the states of two objects that every call preserves, both answering it
alike, makes them indistinguishable to their callers.
-/

namespace Objects
universe u v w x y
variable {S : Type u} {T : Type v} {C : Type w} {R : Type x} {E : Type y}

/-- The answers to a sequence of calls. -/
def answers (call : S → C → Except E (R × S)) : S → List C → Except E (List R)
  | _, [] => .ok []
  | s, c :: cs =>
      match call s c with
      | .error e => .error e
      | .ok (r, s') => (answers call s' cs).map (r :: ·)

/-- From related states neither object throws, both answer alike, and they stay related. -/
def Alike (call : S → C → Except E (R × S)) (call' : T → C → Except E (R × T))
    (rel : S → T → Prop) : Prop :=
  ∀ s t c, rel s t →
    ∃ r s' t', call s c = .ok (r, s') ∧ call' t c = .ok (r, t') ∧ rel s' t'

theorem Alike.answers {call : S → C → Except E (R × S)} {call' : T → C → Except E (R × T)}
    {rel : S → T → Prop} (alike : Alike call call' rel) {s : S} {t : T} (related : rel s t)
    (cs : List C) : ∃ rs, Objects.answers call s cs = .ok rs ∧
      Objects.answers call' t cs = .ok rs := by
  induction cs generalizing s t with
  | nil => exact ⟨[], rfl, rfl⟩
  | cons c cs ih =>
      obtain ⟨r, s', t', here, there, still⟩ := alike s t c related
      obtain ⟨rs, rest, rest'⟩ := ih still
      refine ⟨r :: rs, ?_, ?_⟩
      · rw [Objects.answers, here]
        simp only [rest, Except.map]
      · rw [Objects.answers, there]
        simp only [rest', Except.map]

end Objects
