import OhMyDb.Lib.LeaderLog.Agreement

/-!
Support for simulations: what may be relied on once it holds, what a step leaves
alone at the other nodes, and several entries appended at once.
-/

namespace LeaderLog
open Function (update)
variable {N Op : Type*} {Q : Quorum.System N} {D : Discipline N Op} {s s' s'' : State N Op}

/-- Facts that are never lost, and leaderships that are never regained. -/
structure Evolves (s s' : State N Op) : Prop extends Extends s s' where
  term : ∀ n, s.term n ≤ s'.term n
  requests : s.requests ⊆ s'.requests
  messages : s.messages ⊆ s'.messages
  acks : s.acks ⊆ s'.acks
  committed : s.committed ⊆ s'.committed
  leads : ∀ t n, s.leader t = some n → s'.role n = .leader → s'.term n = t →
    s.role n = .leader ∧ s.term n = t
  certified : ∀ t P, Certified s t P → Certified s' t P

theorem Evolves.refl (s : State N Op) : Evolves s s where
  leader _ _ h := h
  base _ _ _ := rfl
  led _ _ _ := List.prefix_refl _
  term _ := le_rfl
  requests := subset_rfl
  messages := subset_rfl
  acks := subset_rfl
  committed := subset_rfl
  leads _ _ _ role term := ⟨role, term⟩
  certified _ _ c := c

theorem Evolves.trans (e : Evolves s s') (e' : Evolves s' s'') : Evolves s s'' where
  leader t n h := e'.leader t n (e.leader t n h)
  base t n h := (e'.base t n (e.leader t n h)).trans (e.base t n h)
  led t n h := (e.led t n h).trans (e'.led t n (e.leader t n h))
  term n := (e.term n).trans (e'.term n)
  requests := e.requests.trans e'.requests
  messages := e.messages.trans e'.messages
  acks := e.acks.trans e'.acks
  committed := e.committed.trans e'.committed
  leads t n h role term :=
    have still := e'.leads t n (e.leader t n h) role term
    e.leads t n h still.1 still.2
  certified t P c := e'.certified t P (e.certified t P c)

/-- What node `n` does is not seen in what the other nodes store. -/
structure Elsewhere (n : N) (s s' : State N Op) : Prop where
  term : ∀ m, m ≠ n → s'.term m = s.term m
  role : ∀ m, m ≠ n → s'.role m = s.role m
  log : ∀ m, m ≠ n → s'.log m = s.log m
  commit : ∀ m, m ≠ n → s'.commit m = s.commit m
  votes : ∀ w, w.voter ≠ n → (w ∈ s'.votes ↔ w ∈ s.votes)

theorem Elsewhere.refl (n : N) (s : State N Op) : Elsewhere n s s :=
  ⟨fun _ _ => rfl, fun _ _ => rfl, fun _ _ => rfl, fun _ _ => rfl, fun _ _ => Iff.rfl⟩

theorem Elsewhere.trans {n : N} (e : Elsewhere n s s') (e' : Elsewhere n s' s'') :
    Elsewhere n s s'' where
  term m h := (e'.term m h).trans (e.term m h)
  role m h := (e'.role m h).trans (e.role m h)
  log m h := (e'.log m h).trans (e.log m h)
  commit m h := (e'.commit m h).trans (e.commit m h)
  votes w h := (e'.votes w h).trans (e.votes w h)

/-- The node of the acknowledgement holds what it acknowledges. -/
def Held (s : State N Op) (a : Ack N) : Prop :=
  s.term a.node = a.term ∧ (s.led a.term).take a.count <+: s.log a.node

variable [DecidableEq N]

/-- The leader of a term leads it without interruption. -/
theorem Step.leads (h : Step Q D s s') (v : Voting Q s) {t : ℤ} {n : N}
    (lead : s.leader t = some n) (role : s'.role n = .leader) (term : s'.term n = t) :
    s.role n = .leader ∧ s.term n = t := by
  cases h with
  | startElection m _ =>
      by_cases e : n = m
      · subst e
        simp [State.startElection] at role
      · simpa [State.startElection, e] using And.intro role term
  | observe m u _ =>
      by_cases e : n = m
      · subst e
        simp [State.observe] at role
      · simpa [State.observe, e] using And.intro role term
  | elect m A candidate quorum votes =>
      by_cases e : n = m
      · subst e
        rw [← show s.term n = t from term, v.unled candidate quorum votes] at lead
        cases lead
      · simpa [State.elect, e] using And.intro role term
  | _ => exact ⟨role, term⟩

theorem Step.evolves (h : Step Q D s s') (v : Voting Q s) (i : Matching s) : Evolves s s' :=
  have g := h.grows v
  have x := h.extends v i
  { x with
    term := g.term
    requests := g.requests
    messages := g.messages
    acks := g.acks
    committed := g.committed
    leads := fun _ _ => h.leads v
    certified := fun _ _ c => c.mono x v g.committed }

theorem Steps.evolves (h : Steps Q D s s') (v : Voting Q s) (i : Matching s) : Evolves s s' := by
  induction h with
  | refl => exact .refl s
  | tail hs h ih => exact ih.trans (h.evolves (v.steps hs) (i.steps v hs))

/-! What each operation leaves alone. -/

theorem elsewhere_startElection (s : State N Op) (n : N) :
    Elsewhere n s (s.startElection n) := by
  constructor
  case votes => exact fun _ h => or_iff_right fun e => h (congrArg Vote.voter e)
  all_goals intro m h; simp [State.startElection, h]

theorem elsewhere_observe (s : State N Op) (n : N) (t : ℤ) : Elsewhere n s (s.observe n t) := by
  constructor
  case votes => exact fun _ _ => Iff.rfl
  all_goals intro m h; simp [State.observe, h]

omit [DecidableEq N] in
theorem elsewhere_grant (s : State N Op) (n : N) (q : Request N Op) :
    Elsewhere n s (s.grant n q) :=
  { Elsewhere.refl n s with
    votes := fun _ h => or_iff_right fun e => h (congrArg Vote.voter e) }

theorem elsewhere_elect (s : State N Op) (n : N) (A : Finset N) :
    Elsewhere n s (s.elect n A) :=
  { Elsewhere.refl n s with role := fun m h => by simp [State.elect, h] }

theorem elsewhere_accept (s : State N Op) (n : N) (m : Message N Op) (l : Log Op) :
    Elsewhere n s (s.accept n m l) :=
  { Elsewhere.refl n s with
    log := fun m h => by simp [State.accept, h]
    commit := fun m h => by simp [State.accept, h] }

theorem elsewhere_commitTo (s : State N Op) (n : N) (k : ℕ) :
    Elsewhere n s (s.commitTo n k) :=
  { Elsewhere.refl n s with commit := fun m h => by simp [State.commitTo, h] }

/-! Several entries at once. -/

def State.appends (s : State N Op) (n : N) (ops : List Op) : State N Op :=
  ops.foldl (fun s op => s.append n op) s

theorem State.appends_eq (s : State N Op) (n : N) (ops : List Op) :
    ∃ led, s.appends n ops = { s with
      log := update s.log n (s.log n ++ ops.map fun op => ⟨s.term n, op⟩), led := led } := by
  induction ops generalizing s with
  | nil => exact ⟨s.led, by simp [State.appends]⟩
  | cons op ops ih =>
      obtain ⟨led, eq⟩ := ih (s.append n op)
      refine ⟨led, eq.trans ?_⟩
      simp [State.append]

theorem Steps.appends (role : s.role n = .leader) (ops : List Op) :
    Steps Q D s (s.appends n ops) := by
  induction ops generalizing s with
  | nil => exact .refl
  | cons op ops ih => exact .head (.append s n op role) (ih role)

theorem elsewhere_appends (s : State N Op) (n : N) (ops : List Op) :
    Elsewhere n s (s.appends n ops) := by
  obtain ⟨led, eq⟩ := s.appends_eq n ops
  rw [eq]
  exact { Elsewhere.refl n s with log := fun m h => by simp [h] }

/-- An acknowledgement that a step adds is true. -/
theorem Step.held (h : Step Q D s s') (i : Matching s) {a : Ack N} (ha : a ∈ s'.acks) :
    a ∈ s.acks ∨ Held s' a := by
  cases h with
  | accept v m l _ term _ merged =>
      refine ha.imp_right ?_
      rintro ⟨rfl, led⟩
      refine ⟨term, ?_⟩
      have whole : (s.led m.term).take m.log.length = m.log := (List.prefix_iff_eq_take.mp led).symm
      simpa [State.accept, whole] using merged.message_whole
  | commitTo n k A role _ _ _ _ =>
      rcases ha with rfl | ha
      · refine Or.inr ⟨rfl, ?_⟩
        rw [show (s.commitTo n k).log n = s.log n from rfl, i.leader_log n role]
        exact List.take_prefix _ _
      · exact Or.inl ha
  | _ => exact Or.inl ha

end LeaderLog
