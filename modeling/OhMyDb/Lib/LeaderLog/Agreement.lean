import OhMyDb.Lib.LeaderLog.Completeness

/-!
State machine safety: when only present leaders send log messages, what any node
takes for committed is part of one sequence.
-/

namespace LeaderLog
open Function (update)
variable {N Op : Type*} {Q : Quorum.System N} {s s' : State N Op}
variable {t u : ℤ} {P P' l : Log Op}

/-- The log has been committed by a leader of a term up to `t`. -/
def Certified (s : State N Op) (t : ℤ) (P : Log Op) : Prop :=
  P = [] ∨ ∃ p ∈ s.committed, p.1 ≤ t ∧ P <+: (s.led p.1).take p.2

theorem Certified.later (c : Certified s t P) (h : t ≤ u) : Certified s u P :=
  c.imp_right fun ⟨p, hp, le, hP⟩ => ⟨p, hp, le.trans h, hP⟩

theorem Certified.shorter (c : Certified s t P) (h : P' <+: P) : Certified s t P' := by
  rcases c with rfl | ⟨p, hp, le, hP⟩
  · exact Or.inl (List.prefix_nil.mp h)
  · exact Or.inr ⟨p, hp, le, h.trans hP⟩

/-- A certified log is part of what the leader of the term has built, and of what
it was elected with if it was committed before. -/
theorem Certified.led (c : Certified s t P) (i : Sound Q s) {n : N}
    (hn : s.leader u = some n) (le : t ≤ u) : P <+: s.led u := by
  rcases c with rfl | ⟨p, hp, lp, hP⟩
  · exact List.nil_prefix
  · rcases (lp.trans le).lt_or_eq with lt | rfl
    · exact (hP.trans (i.retained.complete hp hn lt)).trans (i.matching.base_led hn)
    · exact hP.trans (List.take_prefix _ _)

/-- Any two certified logs are parts of one sequence. -/
theorem Certified.agree (c : Certified s t P) (c' : Certified s u P') (i : Sound Q s) :
    P <+: P' ∨ P' <+: P := by
  rcases c with rfl | ⟨p, hp, -, hP⟩
  · exact Or.inl List.nil_prefix
  rcases c' with rfl | ⟨q, hq, -, hQ⟩
  · exact Or.inr List.nil_prefix
  obtain ⟨⟨n, hn⟩, _⟩ := i.retained.committed p hp
  obtain ⟨⟨m, hm⟩, _⟩ := i.retained.committed q hq
  rcases le_total p.1 q.1 with le | le
  · have c : Certified s p.1 P := Or.inr ⟨p, hp, le_rfl, hP⟩
    exact List.prefix_or_prefix_of_prefix (c.led i hm le) (hQ.trans (List.take_prefix _ _))
  · have c : Certified s q.1 P' := Or.inr ⟨q, hq, le_rfl, hQ⟩
    exact List.prefix_or_prefix_of_prefix (hP.trans (List.take_prefix _ _)) (c.led i hn le)

/-- Certified logs have one entry at an index. -/
theorem Certified.entry (c : Certified s t P) (c' : Certified s u P') (i : Sound Q s) {k : ℕ}
    {e e' : Entry Op} (he : P[k]? = some e) (he' : P'[k]? = some e') : e = e' := by
  rcases c.agree c' i with ⟨rest, rfl⟩ | ⟨rest, rfl⟩
  · rw [List.getElem?_append_left (List.getElem?_eq_some_iff.mp he).1, he] at he'
    exact Option.some.inj he'
  · rw [List.getElem?_append_left (List.getElem?_eq_some_iff.mp he').1, he'] at he
    exact (Option.some.inj he).symm

variable [DecidableEq N]

omit [DecidableEq N] in
theorem Certified.mono (c : Certified s t P) (x : Extends s s') (v : Voting Q s)
    (h : s.committed ⊆ s'.committed) : Certified s' t P := by
  refine c.imp_right fun ⟨p, hp, le, hP⟩ => ⟨p, h hp, le, ?_⟩
  obtain ⟨n, hn⟩ := v.committed_leader p hp
  exact hP.trans ((x.led _ n hn).take p.2)

/-- What nodes and messages say about commits is certified. -/
structure Agreed (s : State N Op) : Prop where
  message_base : ∀ m ∈ s.messages, s.base m.term <+: m.log
  message_led : ∀ m ∈ s.messages, m.log <+: s.led m.term
  message_le : ∀ m ∈ s.messages, m.commit ≤ m.log.length
  message_commit : ∀ m ∈ s.messages, Certified s m.term (m.log.take m.commit)
  commit_le : ∀ n, s.commit n ≤ (s.log n).length
  commit : ∀ n, Certified s (s.term n) ((s.log n).take (s.commit n))

omit [DecidableEq N] in
theorem Agreed.init : Agreed (State.init : State N Op) := by
  constructor <;> simp [State.init, Certified]

/-- What a follower takes for committed survives the merge. -/
theorem Agreed.accept (a : Agreed s) (i : Sound Q s) {v : N} {m : Message N Op}
    (hm : m ∈ s.messages) (term : s.term v = m.term) (merged : Merged (s.log v) l m.log) :
    Agreed (s.accept v m l) := by
  have lead := i.retained.message_leader m hm
  have held : (s.log v).take (s.commit v) <+: l := by
    rcases merged with ⟨_, rfl⟩ | ⟨differs, rfl⟩
    · exact List.take_prefix _ _
    · have c := (a.commit v).led i lead term.le
      refine (List.prefix_or_prefix_of_prefix c (a.message_led m hm)).resolve_right fun h => ?_
      exact differs (h.trans (List.take_prefix _ _))
  have le : s.commit v ≤ l.length := by
    have := held.length_le
    rwa [List.length_take, min_eq_left (a.commit_le v)] at this
  have old : l.take (s.commit v) = (s.log v).take (s.commit v) := by
    refine ((held.take (s.commit v)).eq_of_length ?_).symm.trans ?_
    · simp [a.commit_le v, le]
    · simp
  have new : l.take m.commit = m.log.take m.commit := by
    refine ((merged.message_whole.take m.commit).eq_of_length ?_).symm
    have := merged.message_whole.length_le
    simp [a.message_le m hm, (a.message_le m hm).trans this]
  have commit_new : min m.commit l.length = m.commit :=
    min_eq_left ((a.message_le m hm).trans merged.message_whole.length_le)
  refine { a with commit_le := ?_, commit := ?_ }
  · intro n
    by_cases e : n = v
    · subst e
      simp [State.accept, le]
    · simpa [State.accept, e] using a.commit_le n
  · intro n
    change Certified s (s.term n) ((update s.log v l n).take
      (update s.commit v (max (s.commit v) (min m.commit l.length)) n))
    by_cases e : n = v
    · subst e
      simp only [Function.update_self, commit_new]
      rcases le_total (s.commit n) m.commit with h | h
      · rw [max_eq_right h, new, term]
        exact a.message_commit m hm
      · rw [max_eq_left h, old]
        exact a.commit n
    · simp only [Function.update_of_ne e]
      exact a.commit n

theorem Agreed.step (a : Agreed s) (i : Sound Q s) (h : Step Q .presentLeader s s') :
    Agreed s' := by
  have g := h.grows i.voting
  have x := h.extends i.voting i.matching
  have keep {t : ℤ} {P : Log Op} (c : Certified s t P) : Certified s' t P :=
    c.mono x i.voting g.committed
  cases h with
  | startElection n _ =>
      exact { a with commit := fun m => (a.commit m).later (g.term m) }
  | observe n t _ =>
      exact { a with commit := fun m => (a.commit m).later (g.term m) }
  | request n t _ => exact { a with }
  | grant u q _ _ _ _ => exact { a with }
  | elect n A role quorum votes =>
      exact {
        message_base := fun m hm => by
          rw [x.base _ _ (i.retained.message_leader m hm)]
          exact a.message_base m hm
        message_led := fun m hm =>
          (a.message_led m hm).trans (x.led _ _ (i.retained.message_leader m hm))
        message_le := a.message_le
        message_commit := fun m hm => keep (a.message_commit m hm)
        commit_le := a.commit_le
        commit := fun m => keep (a.commit m) }
  | append n op role =>
      refine { a with message_led := ?_, message_commit := ?_, commit_le := ?_, commit := ?_ }
      · exact fun m hm =>
          (a.message_led m hm).trans (x.led _ _ (i.retained.message_leader m hm))
      · exact fun m hm => keep (a.message_commit m hm)
      · intro m
        by_cases e : m = n
        · subst e
          simpa [State.append] using (a.commit_le m).trans (Nat.le_succ _)
        · simpa [State.append, e] using a.commit_le m
      · intro m
        have c := keep (a.commit m)
        by_cases e : m = n
        · subst e
          simpa [State.append, List.take_append_of_le_length (a.commit_le m)] using c
        · simpa [State.append, e] using c
  | send n t lead =>
      obtain ⟨role, rfl⟩ := lead
      have led := i.voting.leader_role n role
      have log := i.matching.leader_log n role
      refine { a with
        message_base := ?_, message_led := ?_, message_le := ?_, message_commit := ?_ }
      · rintro m (rfl | hm)
        · exact log ▸ i.matching.base_led led
        · exact a.message_base m hm
      · rintro m (rfl | hm)
        · exact log ▸ List.prefix_refl _
        · exact a.message_led m hm
      · rintro m (rfl | hm)
        · exact a.commit_le n
        · exact a.message_le m hm
      · rintro m (rfl | hm)
        · exact a.commit n
        · exact a.message_commit m hm
  | accept u m l hm term _ merged => exact a.accept i hm term merged
  | commitTo n k A role _ le _ _ =>
      have log := i.matching.leader_log n role
      refine { a with message_commit := ?_, commit_le := ?_, commit := ?_ }
      · exact fun m hm => keep (a.message_commit m hm)
      · intro m
        by_cases e : m = n
        · subst e
          simp [State.commitTo, a.commit_le m, le]
        · simpa [State.commitTo, e] using a.commit_le m
      · intro m
        have old := keep (a.commit m)
        by_cases e : m = n
        · subst e
          rcases le_total (s.commit m) k with h | h
          · refine Or.inr ⟨(s.term m, k), Set.mem_insert _ _, le_rfl, ?_⟩
            simp [State.commitTo, max_eq_right h, log]
          · simpa [State.commitTo, max_eq_left h] using old
        · simpa [State.commitTo, e] using old

/-- Everything that is known when only present leaders send. -/
theorem Agreed.steps (h : Steps Q .presentLeader (State.init : State N Op) s) :
    Sound Q s ∧ Agreed s := by
  induction h with
  | refl => exact ⟨.init, .init⟩
  | tail _ h ih =>
      refine ⟨ih.1.step (h.mono ?_), ih.2.step ih.1 h⟩
      rintro n _ ⟨role, rfl⟩
      exact ih.1.voting.leader_role n role

end LeaderLog
