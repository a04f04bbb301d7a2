import OhMyDb.Lib.LeaderLog.Protocol

/-!
Votes and leaders. A node votes for one candidate in a term, terms only grow, so
two quorums for a term elect the same node, and no node is elected twice for it.
None of this depends on who sends log messages.
-/

namespace LeaderLog
open Function (update)
variable {N Op : Type*} {Q : Quorum.System N} {D : Discipline N Op}

/-- The facts about votes and leaders that every step preserves together. -/
structure Voting (Q : Quorum.System N) (s : State N Op) : Prop where
  term_nonneg : ∀ n, 0 ≤ s.term n
  vote_voter : ∀ w ∈ s.votes, w.term ≤ s.term w.voter
  vote_candidate : ∀ w ∈ s.votes, w.term ≤ s.term w.candidate
  vote_unique : ∀ w ∈ s.votes, ∀ x ∈ s.votes,
    w.voter = x.voter → w.term = x.term → w.candidate = x.candidate
  request_term : ∀ q ∈ s.requests, q.term ≤ s.term q.candidate
  candidate_request : ∀ q ∈ s.requests, s.role q.candidate = .candidate →
    q.term = s.term q.candidate → q.log = s.log q.candidate
  candidate_vote : ∀ w ∈ s.votes, s.role w.candidate = .candidate →
    w.term = s.term w.candidate → w.candidateLog = s.log w.candidate
  candidate_unled : ∀ n, s.role n = .candidate → s.leader (s.term n) ≠ some n
  leader_role : ∀ n, s.role n = .leader → s.leader (s.term n) = some n
  leader_term : ∀ t n, s.leader t = some n → 0 ≤ t ∧ t ≤ s.term n
  leader_quorum : ∀ t n, s.leader t = some n → Q.IsQuorum (s.quorum t) ∧
    ∀ v ∈ s.quorum t, ∃ w ∈ s.votes,
      w.voter = v ∧ w.candidate = n ∧ w.term = t ∧ w.candidateLog = s.base t
  committed_leader : ∀ p ∈ s.committed, ∃ n, s.leader p.1 = some n

theorem Voting.init : Voting Q (State.init : State N Op) := by
  constructor <;> simp [State.init]

/-- A candidate with a quorum of votes finds its term without a leader. -/
theorem Voting.unled {s : State N Op} (i : Voting Q s) {n : N} {A : Finset N}
    (role : s.role n = .candidate) (quorum : Q.IsQuorum A)
    (votes : ∀ v ∈ A, ∃ w ∈ s.votes, w.voter = v ∧ w.candidate = n ∧ w.term = s.term n) :
    s.leader (s.term n) = none := by
  cases h : s.leader (s.term n) with
  | none => rfl
  | some m =>
      obtain ⟨hq, hv⟩ := i.leader_quorum _ _ h
      obtain ⟨v, hA, hB⟩ := Q.meet _ _ quorum hq
      obtain ⟨w, hw, wv, wn, wt⟩ := votes v hA
      obtain ⟨x, hx, xv, xm, xt, _⟩ := hv v hB
      have same := i.vote_unique w hw x hx (wv.trans xv.symm) (wt.trans xt.symm)
      have hnm : m = n := by rw [← xm, ← same, wn]
      exact absurd (hnm ▸ h) (i.candidate_unled n role)

variable [DecidableEq N]

/-- What a step leaves in place or lets grow. -/
structure Grows (s s' : State N Op) : Prop where
  term : ∀ n, s.term n ≤ s'.term n
  requests : s.requests ⊆ s'.requests
  votes : s.votes ⊆ s'.votes
  leader : ∀ t n, s.leader t = some n → s'.leader t = some n
  quorum : ∀ t n, s.leader t = some n → s'.quorum t = s.quorum t
  base : ∀ t n, s.leader t = some n → s'.base t = s.base t
  messages : s.messages ⊆ s'.messages
  acks : s.acks ⊆ s'.acks
  committed : s.committed ⊆ s'.committed

omit [DecidableEq N] in
theorem Grows.refl (s : State N Op) : Grows s s :=
  ⟨fun _ => le_rfl, subset_rfl, subset_rfl, fun _ _ => id, fun _ _ _ => rfl, fun _ _ _ => rfl,
    subset_rfl, subset_rfl, subset_rfl⟩

private theorem update_term_le {s : State N Op} {n : N} {t : ℤ} (h : s.term n ≤ t) (m : N) :
    s.term m ≤ update s.term n t m := by
  by_cases e : m = n
  · subst e; simpa using h
  · simp [e]

theorem Step.grows {s s' : State N Op} (h : Step Q D s s') (i : Voting Q s) : Grows s s' := by
  cases h with
  | startElection n _ =>
      exact { Grows.refl s with
        term := update_term_le (by omega), votes := Set.subset_insert _ _ }
  | observe n t h => exact { Grows.refl s with term := update_term_le h }
  | request n t _ => exact { Grows.refl s with requests := Set.subset_insert _ _ }
  | grant v q _ _ _ _ => exact { Grows.refl s with votes := Set.subset_insert _ _ }
  | elect n A role quorum votes =>
      have unled := i.unled role quorum votes
      have other {t : ℤ} {m : N} (h : s.leader t = some m) : t ≠ s.term n := by
        rintro rfl
        rw [unled] at h
        cases h
      exact { Grows.refl s with
        leader := fun t m h => by simp [State.elect, other h, h]
        quorum := fun t m h => by simp [State.elect, other h]
        base := fun t m h => by simp [State.elect, other h] }
  | append n op _ => exact { Grows.refl s with }
  | send n t _ => exact { Grows.refl s with messages := Set.subset_insert _ _ }
  | accept v m l _ _ _ _ => exact { Grows.refl s with acks := Set.subset_union_left }
  | commitTo n k A _ _ _ _ _ =>
      exact { Grows.refl s with
        acks := Set.subset_insert _ _, committed := Set.subset_insert _ _ }

/-- A node that starts an election moves to a term no vote or request of its own
has named yet. -/
theorem Voting.startElection {s : State N Op} (i : Voting Q s) {n : N}
    (role : s.role n ≠ .leader) : Voting Q (s.startElection n) := by
  have le (m : N) : s.term m ≤ (s.startElection n).term m := update_term_le (by omega) m
  have self : (s.startElection n).term n = s.term n + 1 := by simp [State.startElection]
  have other {m : N} (h : m ≠ n) : (s.startElection n).term m = s.term m := by
    simp [State.startElection, h]
  have roleOther {m : N} (h : m ≠ n) : (s.startElection n).role m = s.role m := by
    simp [State.startElection, h]
  have roleSelf : (s.startElection n).role n = .candidate := by simp [State.startElection]
  constructor
  case term_nonneg => exact fun m => (i.term_nonneg m).trans (le m)
  case vote_voter =>
    rintro w (rfl | hw)
    · exact self.ge
    · exact (i.vote_voter w hw).trans (le _)
  case vote_candidate =>
    rintro w (rfl | hw)
    · exact self.ge
    · exact (i.vote_candidate w hw).trans (le _)
  case vote_unique =>
    rintro w (rfl | hw) x (rfl | hx) hv ht
    · rfl
    · have := i.vote_voter x hx
      simp only [← hv, ← ht] at this
      omega
    · have := i.vote_voter w hw
      simp only [hv, ht] at this
      omega
    · exact i.vote_unique w hw x hx hv ht
  case request_term => exact fun q hq => (i.request_term q hq).trans (le _)
  case candidate_request =>
    intro q hq hr ht
    by_cases e : q.candidate = n
    · have := i.request_term q hq
      rw [e] at this ht
      omega
    · exact i.candidate_request q hq (by rwa [roleOther e] at hr) (by rwa [other e] at ht)
  case candidate_vote =>
    rintro w (rfl | hw) hr ht
    · rfl
    · by_cases e : w.candidate = n
      · have := i.vote_candidate w hw
        rw [e] at this ht
        omega
      · exact i.candidate_vote w hw (by rwa [roleOther e] at hr) (by rwa [other e] at ht)
  case candidate_unled =>
    intro m hr hl
    by_cases e : m = n
    · subst e
      have := (i.leader_term _ _ hl).2
      omega
    · rw [other e] at hl
      exact i.candidate_unled m (by rwa [roleOther e] at hr) hl
  case leader_role =>
    intro m hr
    by_cases e : m = n
    · subst e
      rw [roleSelf] at hr
      cases hr
    · rw [other e]
      exact i.leader_role m (by rwa [roleOther e] at hr)
  case leader_term =>
    exact fun t m h => ⟨(i.leader_term t m h).1, (i.leader_term t m h).2.trans (le m)⟩
  case leader_quorum =>
    intro t m h
    refine ⟨(i.leader_quorum t m h).1, fun v hv => ?_⟩
    obtain ⟨w, hw, facts⟩ := (i.leader_quorum t m h).2 v hv
    exact ⟨w, Or.inr hw, facts⟩
  case committed_leader => exact i.committed_leader

theorem Voting.observe {s : State N Op} (i : Voting Q s) {n : N} {t : ℤ}
    (h : s.term n ≤ t) : Voting Q (s.observe n t) := by
  have le (m : N) : s.term m ≤ (s.observe n t).term m := update_term_le h m
  have other {m : N} (e : m ≠ n) : (s.observe n t).term m = s.term m := by
    simp [State.observe, e]
  -- the node itself is a follower, the others are as before
  have role {m : N} {r : Role} (hr : (s.observe n t).role m = r) (nf : r ≠ .follower) :
      m ≠ n ∧ s.role m = r := by
    by_cases e : m = n
    · subst e
      simp only [State.observe, Function.update_self] at hr
      exact absurd hr.symm nf
    · simpa [State.observe, e] using hr
  constructor
  case term_nonneg => exact fun m => (i.term_nonneg m).trans (le m)
  case vote_voter => exact fun w hw => (i.vote_voter w hw).trans (le _)
  case vote_candidate => exact fun w hw => (i.vote_candidate w hw).trans (le _)
  case vote_unique => exact i.vote_unique
  case request_term => exact fun q hq => (i.request_term q hq).trans (le _)
  case candidate_request =>
    intro q hq hr ht
    obtain ⟨e, hr⟩ := role hr (by simp)
    exact i.candidate_request q hq hr (by rwa [other e] at ht)
  case candidate_vote =>
    intro w hw hr ht
    obtain ⟨e, hr⟩ := role hr (by simp)
    exact i.candidate_vote w hw hr (by rwa [other e] at ht)
  case candidate_unled =>
    intro m hr
    obtain ⟨e, hr⟩ := role hr (by simp)
    rw [other e]
    exact i.candidate_unled m hr
  case leader_role =>
    intro m hr
    obtain ⟨e, hr⟩ := role hr (by simp)
    rw [other e]
    exact i.leader_role m hr
  case leader_term =>
    exact fun u m h => ⟨(i.leader_term u m h).1, (i.leader_term u m h).2.trans (le m)⟩
  case leader_quorum => exact i.leader_quorum
  case committed_leader => exact i.committed_leader

omit [DecidableEq N] in
theorem Voting.request {s : State N Op} (i : Voting Q s) {n : N} {t : ℤ}
    (h : t ≤ s.term n) : Voting Q (s.request n t) :=
  { i with
    request_term := by
      rintro q (rfl | hq)
      · exact h
      · exact i.request_term q hq
    candidate_request := by
      rintro q (rfl | hq) hr ht
      · rfl
      · exact i.candidate_request q hq hr ht }

omit [DecidableEq N] in
theorem Voting.grant {s : State N Op} (i : Voting Q s) {v : N} {q : Request N Op}
    (hq : q ∈ s.requests) (ht : s.term v = q.term)
    (single : ∀ w ∈ s.votes, w.voter = v → w.term = q.term → w.candidate = q.candidate) :
    Voting Q (s.grant v q) :=
  { i with
    vote_voter := by
      rintro w (rfl | hw)
      · exact ht.ge
      · exact i.vote_voter w hw
    vote_candidate := by
      rintro w (rfl | hw)
      · exact i.request_term q hq
      · exact i.vote_candidate w hw
    vote_unique := by
      rintro w (rfl | hw) x (rfl | hx) hv ht
      · rfl
      · exact (single x hx hv.symm ht.symm).symm
      · exact single w hw hv ht
      · exact i.vote_unique w hw x hx hv ht
    candidate_vote := by
      rintro w (rfl | hw) hr ht
      · exact i.candidate_request q hq hr ht
      · exact i.candidate_vote w hw hr ht
    leader_quorum := by
      intro t m h
      refine ⟨(i.leader_quorum t m h).1, fun u hu => ?_⟩
      obtain ⟨w, hw, facts⟩ := (i.leader_quorum t m h).2 u hu
      exact ⟨w, Or.inr hw, facts⟩ }

theorem Voting.elect {s : State N Op} (i : Voting Q s) {n : N} {A : Finset N}
    (role : s.role n = .candidate) (quorum : Q.IsQuorum A)
    (votes : ∀ v ∈ A, ∃ w ∈ s.votes, w.voter = v ∧ w.candidate = n ∧ w.term = s.term n) :
    Voting Q (s.elect n A) := by
  have candidate {m : N} (h : (s.elect n A).role m = .candidate) :
      m ≠ n ∧ s.role m = .candidate := by
    by_cases e : m = n
    · subst e
      simp [State.elect] at h
    · simpa [State.elect, e] using h
  have leader {t : ℤ} {m : N} (h : (s.elect n A).leader t = some m) :
      (t = s.term n ∧ m = n) ∨ (t ≠ s.term n ∧ s.leader t = some m) := by
    by_cases e : t = s.term n
    · subst e
      simp only [State.elect, Function.update_self, Option.some.injEq] at h
      exact Or.inl ⟨rfl, h.symm⟩
    · exact Or.inr ⟨e, by simpa [State.elect, e] using h⟩
  exact { i with
    candidate_request := fun q hq hr => i.candidate_request q hq (candidate hr).2
    candidate_vote := fun w hw hr => i.candidate_vote w hw (candidate hr).2
    candidate_unled := by
      intro m hr hl
      rcases leader hl with ⟨_, e⟩ | ⟨_, hl⟩
      · exact (candidate hr).1 e
      · exact i.candidate_unled m (candidate hr).2 hl
    leader_role := by
      intro m hr
      by_cases e : s.term m = s.term n
      · by_cases em : m = n
        · subst em
          simp [State.elect]
        · -- another leader of the same term contradicts the quorum just counted
          have hr : s.role m = .leader := by simpa [State.elect, em] using hr
          have hl := i.leader_role m hr
          rw [e, i.unled role quorum votes] at hl
          cases hl
      · have em : m ≠ n := fun h => e (by rw [h])
        simp only [State.elect, Function.update_of_ne em, Function.update_of_ne e] at hr ⊢
        exact i.leader_role m hr
    leader_term := by
      intro t m h
      rcases leader h with ⟨rfl, rfl⟩ | ⟨_, h⟩
      · exact ⟨i.term_nonneg _, le_rfl⟩
      · exact i.leader_term t m h
    leader_quorum := by
      intro t m h
      rcases leader h with ⟨rfl, rfl⟩ | ⟨e, h⟩
      · simp only [State.elect, Function.update_self]
        refine ⟨quorum, fun v hv => ?_⟩
        obtain ⟨w, hw, wv, wn, wt⟩ := votes v hv
        exact ⟨w, hw, wv, wn, wt,
          by simpa [wn] using i.candidate_vote w hw (by rwa [wn]) (by rwa [wn])⟩
      · simpa only [State.elect, Function.update_of_ne e] using i.leader_quorum t m h
    committed_leader := by
      intro p hp
      by_cases e : p.1 = s.term n
      · exact ⟨n, by simp [State.elect, e]⟩
      · simpa only [State.elect, Function.update_of_ne e] using i.committed_leader p hp }

/-- Replacing the log of a node that is no candidate leaves the votes alone. -/
theorem Voting.setLog {s s' : State N Op} (i : Voting Q s) {n : N} {l : Log Op}
    (role : s.role n ≠ .candidate)
    (same : s' = { s with
      log := update s.log n l, led := s'.led, commit := s'.commit, acks := s'.acks }) :
    Voting Q s' := by
  have keep {m : N} (h : s.role m = .candidate) : update s.log n l m = s.log m := by
    have e : m ≠ n := fun e => role (e ▸ h)
    simp [e]
  rw [same]
  exact { i with
    candidate_request := fun q hq hr ht => (i.candidate_request q hq hr ht).trans (keep hr).symm
    candidate_vote := fun w hw hr ht => (i.candidate_vote w hw hr ht).trans (keep hr).symm }

theorem Voting.step {s s' : State N Op} (i : Voting Q s) (h : Step Q D s s') : Voting Q s' := by
  cases h with
  | startElection n role => exact i.startElection role
  | observe n t h => exact i.observe h
  | request n t h => exact i.request h
  | grant v q hq ht _ single => exact i.grant hq ht single
  | elect n A role quorum votes => exact i.elect role quorum votes
  | append n op role => exact i.setLog (by simp [role]) rfl
  | send n t _ => exact { i with }
  | accept v m l _ _ role _ => exact i.setLog (by simp [role]) rfl
  | commitTo n k A role _ _ _ _ =>
      exact { i with
        committed_leader := by
          rintro p (rfl | hp)
          · exact ⟨n, i.leader_role n role⟩
          · exact i.committed_leader p hp }

theorem Voting.steps {s s' : State N Op} (i : Voting Q s) (h : Steps Q D s s') : Voting Q s' := by
  induction h with
  | refl => exact i
  | tail _ h ih => exact ih.step h

end LeaderLog
