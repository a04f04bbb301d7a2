import OhMyDb.Lib.LeaderLog.Matching

/-!
A leader is elected with a log from earlier terms only. A message sent late can
leave a follower with entries of a term it has not reached itself; such a node
may still run for the terms in between, but the quorum that elected the leader
of those entries no longer votes for it.
-/

namespace LeaderLog
open Function (update)
variable {N Op : Type*} {Q : Quorum.System N} {D : Discipline N Op} {s s' : State N Op}

structure Ordered (s : State N Op) : Prop where
  high : ∀ c, s.role c = .candidate → ∀ e ∈ s.log c, s.term c ≤ e.term →
    ∀ w ∈ s.votes, w.candidate = c → w.term = s.term c → w.voter ∉ s.quorum e.term
  base_terms : ∀ t n, s.leader t = some n → ∀ e ∈ s.base t, e.term < t

theorem Ordered.init : Ordered (State.init : State N Op) := by
  constructor <;> simp [State.init]

theorem Ordered.led_terms (o : Ordered s) (i : Matching s) {t : ℤ} {n : N}
    (h : s.leader t = some n) {e : Entry Op} (he : e ∈ s.led t) : e.term ≤ t := by
  obtain ⟨es, hl, own⟩ := i.own t n h
  rw [hl] at he
  rcases List.mem_append.mp he with he | he
  · exact (o.base_terms t n h e he).le
  · exact (own e he).le

variable [DecidableEq N]

theorem Ordered.startElection (o : Ordered s) (v : Voting Q s) (i : Matching s) {n : N} :
    Ordered (s.startElection n) where
  base_terms := o.base_terms
  high := by
    intro c hr e he ht w hw hc hwt hq
    by_cases ec : c = n
    · subst ec
      have ht : s.term c + 1 ≤ e.term := by simpa [State.startElection] using ht
      have hwt : w.term = s.term c + 1 := by simpa [State.startElection] using hwt
      rcases hw with rfl | hw
      · -- the node has not reached the term of the entry, so it is in no quorum for it
        obtain ⟨m, hm⟩ := (i.log c).leader_of_mem he
        obtain ⟨x, hx, xv, _, xt, _⟩ := (v.leader_quorum _ m hm).2 c hq
        have := v.vote_voter x hx
        rw [xv, xt] at this
        omega
      · have := v.vote_candidate w hw
        rw [hc] at this
        omega
    · have hr : s.role c = .candidate := by simpa [State.startElection, ec] using hr
      have st : (s.startElection n).term c = s.term c := by simp [State.startElection, ec]
      rw [st] at ht hwt
      rcases hw with rfl | hw
      · exact ec hc.symm
      · exact o.high c hr e he ht w hw hc hwt hq

theorem Ordered.observe (o : Ordered s) {n : N} {t : ℤ} : Ordered (s.observe n t) where
  base_terms := o.base_terms
  high := by
    intro c hr e he ht w hw hc hwt
    have ec : c ≠ n := by
      rintro rfl
      simp [State.observe] at hr
    have st : (s.observe n t).term c = s.term c := by simp [State.observe, ec]
    rw [st] at ht hwt
    exact o.high c (by simpa [State.observe, ec] using hr) e he ht w hw hc hwt

omit [DecidableEq N] in
theorem Ordered.grant (o : Ordered s) (v : Voting Q s) (i : Matching s) {u : N}
    {q : Request N Op} (ht : s.term u = q.term)
    (single : ∀ w ∈ s.votes, w.voter = u → w.term = q.term → w.candidate = q.candidate) :
    Ordered (s.grant u q) where
  base_terms := o.base_terms
  high := by
    rintro c hr e he hle w (rfl | hw) hc hwt hq
    · -- the voter is in the quorum of a term that is not behind its own
      obtain ⟨m, hm⟩ := (i.log c).leader_of_mem he
      obtain ⟨x, hx, xv, xm, xt, _⟩ := (v.leader_quorum _ m hm).2 u hq
      have hu := v.vote_voter x hx
      have hwt : q.term = s.term c := hwt
      have hc : q.candidate = c := hc
      have hle : s.term c ≤ e.term := hle
      rw [xv, xt] at hu
      have het : e.term = s.term c := by omega
      have := single x hx xv (by omega)
      rw [het, ← xm, this, hc] at hm
      exact v.candidate_unled c hr hm
    · exact o.high c hr e he hle w hw hc hwt hq

theorem Ordered.elect (o : Ordered s) (v : Voting Q s) (i : Matching s) {n : N} {A : Finset N}
    (role : s.role n = .candidate) (quorum : Q.IsQuorum A)
    (votes : ∀ v ∈ A, ∃ w ∈ s.votes, w.voter = v ∧ w.candidate = n ∧ w.term = s.term n) :
    Ordered (s.elect n A) where
  high := by
    intro c hr e he ht w hw hc hwt
    have ec : c ≠ n := by
      rintro rfl
      simp [State.elect] at hr
    have hr : s.role c = .candidate := by simpa [State.elect, ec] using hr
    obtain ⟨m, hm⟩ := (i.log c).leader_of_mem he
    have et : e.term ≠ s.term n := by
      intro h
      rw [h, v.unled role quorum votes] at hm
      cases hm
    simpa [State.elect, et] using o.high c hr e he ht w hw hc hwt
  base_terms := by
    intro t m hm e he
    by_cases et : t = s.term n
    · subst et
      have he : e ∈ s.log n := by simpa [State.elect] using he
      by_contra high
      -- a voter of both elections gives the vote that `high` excludes
      obtain ⟨k, hk⟩ := (i.log n).leader_of_mem he
      obtain ⟨u, hA, hB⟩ := Q.meet _ _ quorum (v.leader_quorum _ k hk).1
      obtain ⟨w, hw, wu, wn, wt⟩ := votes u hA
      exact o.high n role e he (not_lt.mp high) w hw wn wt (wu ▸ hB)
    · simp only [State.elect, Function.update_of_ne et] at hm he
      exact o.base_terms t m hm e he

/-- Replacing the log of a node that is no candidate. -/
theorem Ordered.setLog (o : Ordered s) {n : N} {l : Log Op} (role : s.role n ≠ .candidate)
    (same : s' = { s with
      log := update s.log n l, led := s'.led, commit := s'.commit, acks := s'.acks }) :
    Ordered s' := by
  rw [same]
  exact { o with
    high := by
      intro c hr e he
      have ec : c ≠ n := fun h => role (h ▸ hr)
      exact o.high c hr e (by simpa [ec] using he) }

theorem Ordered.step (o : Ordered s) (v : Voting Q s) (i : Matching s) (h : Step Q D s s') :
    Ordered s' := by
  cases h with
  | startElection n _ => exact o.startElection v i
  | observe n t _ => exact o.observe
  | request n t _ => exact { o with }
  | grant u q _ ht _ single => exact o.grant v i ht single
  | elect n A role quorum votes => exact o.elect v i role quorum votes
  | append n op role => exact o.setLog (by simp [role]) rfl
  | send n t _ => exact { o with }
  | accept u m l _ _ role _ => exact o.setLog (by simp [role]) rfl
  | commitTo n k A _ _ _ _ _ => exact { o with }

end LeaderLog
