import OhMyDb.Lib.LeaderLog.Ordering

/-!
Leader completeness: what a quorum has acknowledged to the leader of a term is
in the log of every leader of a later term, as long as log messages come from
nodes that have been leaders of the term they are sent in.

The prefixes a leader has added entries to are compared with what later leaders
were elected with. One that some later leader lacks is dead: it may be dropped
anywhere, and no quorum can acknowledge it any more. All others are still held by
every node that has acknowledged them.
-/

namespace LeaderLog
open Function (update)
variable {N Op : Type*} {Q : Quorum.System N} {D : Discipline N Op} {s s' : State N Op}
variable {t u : ℤ} {P l l' : Log Op}

/-- A prefix of a leader's log that contains an entry of its term. -/
def Own (s : State N Op) (t : ℤ) (P : Log Op) : Prop :=
  (∃ n, s.leader t = some n) ∧ P <+: s.led t ∧ (s.base t).length < P.length

/-- A leader of a later term was elected without the prefix. -/
def Dead (s : State N Op) (t : ℤ) (P : Log Op) : Prop :=
  ∃ u n, t < u ∧ s.leader u = some n ∧ ¬ P <+: s.base u

def Kept (s : State N Op) (t : ℤ) (P l : Log Op) : Prop :=
  P <+: l ∨ Dead s t P

/-- The log keeps the own prefixes of all leaders before term `u`. -/
def Below (s : State N Op) (u : ℤ) (l : Log Op) : Prop :=
  ∀ t < u, ∀ P, Own s t P → Kept s t P l

/-- The log keeps the own prefixes of term `t` up to a length. -/
def KeepsTo (s : State N Op) (t : ℤ) (count : ℕ) (l : Log Op) : Prop :=
  ∀ P, Own s t P → P.length ≤ count → Kept s t P l

theorem Kept.extend (h : Kept s t P l) (hl : l <+: l') : Kept s t P l' :=
  h.imp_left (·.trans hl)

theorem Below.extend (h : Below s u l) (hl : l <+: l') : Below s u l' :=
  fun t ht P o => (h t ht P o).extend hl

theorem Below.of_base {n : N} (h : s.leader u = some n) (hl : s.base u <+: l) :
    Below s u l := by
  intro t ht P o
  by_cases p : P <+: s.base u
  · exact Or.inl (p.trans hl)
  · exact Or.inr ⟨u, n, ht, h, p⟩

/-- The last entry of an own prefix is of the leader's term. -/
theorem Own.last (o : Own s t P) (i : Matching s) : ∃ p e, P = p ++ [e] ∧ e.term = t := by
  obtain ⟨⟨n, hn⟩, hp, hlt⟩ := o
  obtain ⟨es, hl, own⟩ := i.own t n hn
  obtain ⟨es', rfl⟩ := List.prefix_of_prefix_length_le (i.base_led hn) hp hlt.le
  rw [hl, List.prefix_append_right_inj] at hp
  rcases List.eq_nil_or_concat' es' with rfl | ⟨p, e, rfl⟩
  · simp at hlt
  · exact ⟨s.base t ++ p, e, by simp, own e (hp.subset (by simp))⟩

/-- The comparison of logs that a vote depends on carries live prefixes from the
voter to the candidate. -/
theorem Own.carry (o : Own s t P) (alive : ¬ Dead s t P) (v : Voting Q s) (i : Matching s)
    (d : Ordered s) {voter candidate : Log Op} (gv : Genuine s voter)
    (gc : Genuine s candidate) (h : P <+: voter) (up : UpToDate candidate voter) :
    P <+: candidate := by
  obtain ⟨p, e, rfl, et⟩ := o.last i
  obtain ⟨⟨n, hn⟩, hled, hlt⟩ := o
  have t_nonneg := (v.leader_term t n hn).1
  obtain ⟨ev, hev⟩ : ∃ ev, voter.getLast? = some ev := by
    refine Option.ne_none_iff_exists'.mp fun hnone => ?_
    rw [List.getLast?_eq_none_iff.mp hnone] at h
    simp at h
  -- the voter's last term is at least `t`
  have tv : t ≤ ev.term := by
    obtain ⟨⟨m, hm⟩, hv⟩ := gv.whole hev
    exact et ▸ d.led_terms i hm ((h.trans hv).subset (by simp))
  simp only [UpToDate, lastTerm, hev] at up
  cases hec : candidate.getLast? with
  | none =>
      simp only [hec] at up
      omega
  | some ec =>
      simp only [hec] at up
      obtain ⟨⟨m, hm⟩, hc⟩ := gc.whole hec
      rcases (show t ≤ ec.term by omega).eq_or_lt with same | later
      · -- both logs end in the term of the prefix, and the candidate's is no shorter
        have len : voter.length ≤ candidate.length := by omega
        exact List.prefix_of_prefix_length_le (same ▸ hled) hc (h.length_le.trans len)
      · have hb : p ++ [e] <+: s.base ec.term := by
          by_contra hb
          exact alive ⟨_, m, later, hm, hb⟩
        refine hb.trans (List.prefix_of_prefix_length_le (i.base_led hm) hc ?_)
        by_contra short
        have inBase := List.prefix_of_prefix_length_le hc (i.base_led hm) (not_le.mp short).le
        have := d.base_terms _ m hm ec (inBase.subset (List.mem_of_getLast? hec))
        omega

/-- What is known about acknowledgements, messages and leaders' logs. -/
structure Retained (Q : Quorum.System N) (s : State N Op) : Prop where
  own_log : ∀ t n, s.leader t = some n → s.term n = t → s.log n = s.led t
  leader_below : ∀ u n, s.leader u = some n → Below s u (s.log n)
  leader_at : ∀ u n, s.leader u = some n → ∀ P, Own s u P → Kept s u P (s.log n)
  message_leader : ∀ m ∈ s.messages, s.leader m.term = some m.sender
  message_below : ∀ m ∈ s.messages, Below s m.term m.log
  message_at : ∀ m ∈ s.messages, m.log <+: s.led m.term ∨
    (m.term < s.term m.sender ∧ ∀ P, Own s m.term P → Kept s m.term P m.log)
  ack_leader : ∀ a ∈ s.acks, ∃ n, s.leader a.term = some n
  ack_term : ∀ a ∈ s.acks, a.term ≤ s.term a.node
  ack_count : ∀ a ∈ s.acks, a.count ≤ (s.led a.term).length
  ack_kept : ∀ a ∈ s.acks, KeepsTo s a.term a.count (s.log a.node)
  vote_kept : ∀ w ∈ s.votes, ∀ a ∈ s.acks, a.node = w.voter → a.term < w.term →
    KeepsTo s a.term a.count w.voterLog
  vote_upToDate : ∀ w ∈ s.votes, UpToDate w.candidateLog w.voterLog
  blocked : ∀ t P, Own s t P → Dead s t P → ∃ B, Q.IsQuorum B ∧
    ∀ v ∈ B, t < s.term v ∧ ∀ a ∈ s.acks, a.node = v → a.term = t → a.count < P.length
  committed : ∀ p ∈ s.committed, (∃ n, s.leader p.1 = some n) ∧
    (s.base p.1).length < p.2 ∧ p.2 ≤ (s.led p.1).length ∧
    ∃ A, Q.IsQuorum A ∧ ∀ v ∈ A, ∃ a ∈ s.acks, a.node = v ∧ a.term = p.1 ∧ p.2 ≤ a.count

theorem Retained.init : Retained Q (State.init : State N Op) := by
  constructor <;> simp [State.init, Own]

/-- The prefix behind a commit. -/
theorem Retained.committed_own (r : Retained Q s) {p : ℤ × ℕ} (hp : p ∈ s.committed) :
    Own s p.1 ((s.led p.1).take p.2) := by
  obtain ⟨hn, hb, hl, _⟩ := r.committed p hp
  refine ⟨hn, List.take_prefix _ _, ?_⟩
  rw [List.length_take, min_eq_left hl]
  exact hb

/-- Leader completeness. -/
theorem Retained.complete (r : Retained Q s) {p : ℤ × ℕ} (hp : p ∈ s.committed) {n : N}
    (hu : s.leader u = some n) (lt : p.1 < u) : (s.led p.1).take p.2 <+: s.base u := by
  by_contra dead
  obtain ⟨B, hB, blocked⟩ := r.blocked _ _ (r.committed_own hp) ⟨u, n, lt, hu, dead⟩
  obtain ⟨_, _, hl, A, hA, acked⟩ := r.committed p hp
  obtain ⟨v, va, vb⟩ := Q.meet A B hA hB
  obtain ⟨a, ha, av, at', ac⟩ := acked v va
  have := (blocked v vb).2 a ha av at'
  rw [List.length_take, min_eq_left hl] at this
  omega

variable [DecidableEq N]

/-- What the definitions above depend on only grows. -/
structure Extends (s s' : State N Op) : Prop where
  leader : ∀ t n, s.leader t = some n → s'.leader t = some n
  base : ∀ t n, s.leader t = some n → s'.base t = s.base t
  led : ∀ t n, s.leader t = some n → s.led t <+: s'.led t

theorem Step.extends (h : Step Q D s s') (v : Voting Q s) (i : Matching s) : Extends s s' :=
  ⟨(h.grows v).leader, (h.grows v).base, h.led_grows v i⟩

omit [DecidableEq N] in
theorem Dead.mono (h : Dead s t P) (x : Extends s s') : Dead s' t P := by
  obtain ⟨u, n, lt, hu, hp⟩ := h
  exact ⟨u, n, lt, x.leader u n hu, by rwa [x.base u n hu]⟩

omit [DecidableEq N] in
theorem Kept.mono (h : Kept s t P l) (x : Extends s s') : Kept s' t P l :=
  h.imp_right (·.mono x)

omit [DecidableEq N] in
/-- A prefix that is no longer than the leader's log was before is not new. -/
theorem Own.old (o : Own s' t P) (x : Extends s s') {n : N} (hn : s.leader t = some n)
    (len : P.length ≤ (s.led t).length) : Own s t P := by
  obtain ⟨_, hp, hlt⟩ := o
  rw [x.base t n hn] at hlt
  exact ⟨⟨n, hn⟩, List.prefix_of_prefix_length_le hp (x.led t n hn) len, hlt⟩

omit [DecidableEq N] in
theorem KeepsTo.mono {count : ℕ} (h : KeepsTo s t count l) (x : Extends s s') {n : N}
    (hn : s.leader t = some n) (len : count ≤ (s.led t).length) : KeepsTo s' t count l :=
  fun P o hP => (h P (o.old x hn (hP.trans len)) hP).mono x

/-- A new leader has no entries of its own. -/
theorem Own.elect {n : N} {A : Finset N} (o : Own (s.elect n A) t P) :
    t ≠ s.term n ∧ Own s t P := by
  obtain ⟨⟨m, hm⟩, hp, hlt⟩ := o
  by_cases e : t = s.term n
  · subst e
    simp only [State.elect, Function.update_self] at hp hlt
    exact absurd hp.length_le (not_le.mpr hlt)
  · simp only [State.elect, Function.update_of_ne e] at hm hp hlt
    exact ⟨e, ⟨m, hm⟩, hp, hlt⟩

/-- An own prefix after an append is old, or is the leader's whole log. -/
theorem Own.append {n : N} {op : Op} (o : Own (s.append n op) t P) (i : Matching s)
    (role : s.role n = .leader) :
    Own s t P ∨ (t = s.term n ∧ P = s.log n ++ [⟨t, op⟩]) := by
  obtain ⟨hm, hp, hlt⟩ := o
  by_cases e : t = s.term n
  · subst e
    simp only [State.append, Function.update_self] at hp
    rcases List.prefix_concat_iff.mp hp with h | h
    · exact Or.inr ⟨rfl, h⟩
    · exact Or.inl ⟨hm, by rwa [← i.leader_log n role], hlt⟩
  · simp only [State.append, Function.update_of_ne e] at hp
    exact Or.inl ⟨hm, hp, hlt⟩

/-- No later leader can have been elected with an entry that is being appended. -/
theorem Matching.fresh (i : Matching s) {n m : N} {op : Op} (role : s.role n = .leader)
    (hu : s.leader u = some m) (lt : s.term n < u) :
    Dead (s.append n op) (s.term n) (s.log n ++ [⟨s.term n, op⟩]) := by
  refine ⟨u, m, lt, hu, fun h => ?_⟩
  have g : Genuine s (s.base u) := (i.led u m hu).shorter (i.base_led hu)
  have hp := (g _ _ h).2.length_le
  simp only [← i.leader_log n role, List.length_append, List.length_singleton] at hp
  omega

theorem Below.append (b : Below s u l) (x : Extends s s') (i : Matching s) {n m : N} {op : Op}
    (role : s.role n = .leader) (hu : s.leader u = some m) (hs : s' = s.append n op) :
    Below s' u l := by
  subst hs
  intro t lt P o
  rcases o.append i role with o | ⟨rfl, rfl⟩
  · exact (b t lt P o).mono x
  · exact Or.inr (i.fresh role hu lt)

/-! Preservation, step by step. -/

/-- A node moves to a later term, or leaves its role, and may cast votes. -/
theorem Retained.setTerm (r : Retained Q s) {n : N} {t : ℤ} {role : Role}
    {V : Set (Vote N Op)} (le : s.term n ≤ t) (led : s.leader t = some n → t = s.term n)
    (kept : ∀ w ∈ V, ∀ a ∈ s.acks, a.node = w.voter → a.term < w.term →
      KeepsTo s a.term a.count w.voterLog)
    (upToDate : ∀ w ∈ V, UpToDate w.candidateLog w.voterLog) :
    Retained Q { s with
      term := update s.term n t, role := update s.role n role, votes := V } := by
  have up (m : N) : s.term m ≤ update s.term n t m := by
    by_cases e : m = n
    · subst e; simpa using le
    · simp [e]
  exact { r with
    own_log := by
      intro u m hu ht
      by_cases e : m = n
      · subst e
        have ht : t = u := by simpa using ht
        exact r.own_log u m hu (by rw [← led (ht ▸ hu), ht])
      · exact r.own_log u m hu (by simpa [e] using ht)
    message_at := fun m hm => (r.message_at m hm).imp_right
      fun h => ⟨h.1.trans_le (up _), h.2⟩
    ack_term := fun a ha => (r.ack_term a ha).trans (up _)
    vote_kept := kept
    vote_upToDate := upToDate
    blocked := by
      intro u P o d
      obtain ⟨B, hB, hv⟩ := r.blocked u P o d
      exact ⟨B, hB, fun v h => ⟨(hv v h).1.trans_le (up v), (hv v h).2⟩⟩ }

omit [DecidableEq N] in
theorem UpToDate.refl (l : Log Op) : UpToDate l l :=
  Or.inr ⟨rfl, le_rfl⟩

theorem Retained.startElection (r : Retained Q s) (v : Voting Q s) {n : N} :
    Retained Q (s.startElection n) := by
  refine r.setTerm (by omega) ?_ ?_ ?_
  · intro h
    have := (v.leader_term _ _ h).2
    omega
  · rintro w (rfl | hw) a ha hn lt
    · have hn : a.node = n := hn
      exact hn ▸ r.ack_kept a ha
    · exact r.vote_kept w hw a ha hn lt
  · rintro w (rfl | hw)
    · exact UpToDate.refl _
    · exact r.vote_upToDate w hw

omit [DecidableEq N] in
theorem Retained.grant (r : Retained Q s) {u : N} {q : Request N Op}
    (up : UpToDate q.log (s.log u)) : Retained Q (s.grant u q) :=
  { r with
    vote_kept := by
      rintro w (rfl | hw) a ha hn lt
      · have hn : a.node = u := hn
        exact hn ▸ r.ack_kept a ha
      · exact r.vote_kept w hw a ha hn lt
    vote_upToDate := by
      rintro w (rfl | hw)
      · exact up
      · exact r.vote_upToDate w hw }

theorem Retained.elect (r : Retained Q s) (v : Voting Q s) (i : Matching s) (d : Ordered s)
    {n : N} {A : Finset N} (role : s.role n = .candidate) (quorum : Q.IsQuorum A)
    (votes : ∀ v ∈ A, ∃ w ∈ s.votes, w.voter = v ∧ w.candidate = n ∧ w.term = s.term n) :
    Retained Q (s.elect n A) := by
  have h : Step Q .anyone s (s.elect n A) := .elect s n A role quorum votes
  have x := h.extends v i
  have newBase : (s.elect n A).base (s.term n) = s.log n := by simp [State.elect]
  have newLeader : (s.elect n A).leader (s.term n) = some n := by simp [State.elect]
  have leader {t : ℤ} {m : N} (hm : (s.elect n A).leader t = some m) (e : t ≠ s.term n) :
      s.leader t = some m := by
    simpa [State.elect, e] using hm
  have below {u : ℤ} {l : Log Op} (b : Below s u l) : Below (s.elect n A) u l :=
    fun t lt P o => (b t lt P o.elect.2).mono x
  constructor
  case own_log =>
    intro t m hm ht
    by_cases e : t = s.term n
    · subst e
      have em : m = n := by simpa [State.elect] using hm.symm
      subst em
      simp [State.elect]
    · simpa [State.elect, e] using r.own_log t m (leader hm e) ht
  case leader_below =>
    intro u m hm
    by_cases e : u = s.term n
    · subst e
      have em : m = n := by simpa [State.elect] using hm.symm
      subst em
      exact .of_base newLeader (newBase ▸ List.prefix_refl _)
    · exact below (r.leader_below u m (leader hm e))
  case leader_at =>
    intro u m hm P o
    exact (r.leader_at u m (leader hm o.elect.1) P o.elect.2).mono x
  case message_leader => exact fun m hm => x.leader _ _ (r.message_leader m hm)
  case message_below => exact fun m hm => below (r.message_below m hm)
  case message_at =>
    intro m hm
    rcases r.message_at m hm with h | ⟨lt, kept⟩
    · exact Or.inl (h.trans (x.led _ _ (r.message_leader m hm)))
    · exact Or.inr ⟨lt, fun P o => (kept P o.elect.2).mono x⟩
  case ack_leader =>
    intro a ha
    obtain ⟨m, hm⟩ := r.ack_leader a ha
    exact ⟨m, x.leader _ m hm⟩
  case ack_term => exact r.ack_term
  case ack_count =>
    intro a ha
    obtain ⟨m, hm⟩ := r.ack_leader a ha
    exact (r.ack_count a ha).trans (x.led _ m hm).length_le
  case ack_kept =>
    intro a ha
    obtain ⟨m, hm⟩ := r.ack_leader a ha
    exact (r.ack_kept a ha).mono x hm (r.ack_count a ha)
  case vote_kept =>
    intro w hw a ha hn lt
    obtain ⟨m, hm⟩ := r.ack_leader a ha
    exact (r.vote_kept w hw a ha hn lt).mono x hm (r.ack_count a ha)
  case vote_upToDate => exact r.vote_upToDate
  case blocked =>
    intro t P o dead
    have o := o.elect.2
    by_cases before : Dead s t P
    · exact r.blocked t P o before
    · -- the quorum just counted has moved on, and has not acknowledged the prefix
      obtain ⟨u, m, lt, hu, missing⟩ := dead
      have eu : u = s.term n := by
        by_contra e
        refine before ⟨u, m, lt, leader hu e, ?_⟩
        rwa [← x.base u m (leader hu e)]
      subst eu
      rw [newBase] at missing
      refine ⟨A, quorum, fun y hy => ?_⟩
      obtain ⟨w, hw, wv, wn, wt⟩ := votes y hy
      have ty := v.vote_voter w hw
      rw [wv, wt] at ty
      refine ⟨lt.trans_le ty, fun a ha an at' => ?_⟩
      by_contra count
      have kept := r.vote_kept w hw a ha (an.trans wv.symm) (by omega) P (at' ▸ o) (by omega)
      have held : P <+: w.voterLog := (at' ▸ kept).resolve_right before
      have cl := v.candidate_vote w hw (by rwa [wn]) (by rwa [wn])
      have := o.carry before v i d (i.vote w hw).1 (i.vote w hw).2 held (r.vote_upToDate w hw)
      rw [cl, wn] at this
      exact missing this
  case committed =>
    intro p hp
    obtain ⟨⟨m, hm⟩, hb, hl, rest⟩ := r.committed p hp
    refine ⟨⟨m, x.leader _ m hm⟩, ?_, hl.trans (x.led _ m hm).length_le, rest⟩
    rwa [x.base _ m hm]

theorem Retained.append (r : Retained Q s) (v : Voting Q s) (i : Matching s) {n : N} {op : Op}
    (role : s.role n = .leader) : Retained Q (s.append n op) := by
  have h : Step Q .anyone s (s.append n op) := .append s n op role
  have x := h.extends v i
  have lead := v.leader_role n role
  have log_le (m : N) : s.log m <+: (s.append n op).log m := by
    by_cases e : m = n
    · subst e; simp [State.append]
    · simp [State.append, e]
  constructor
  case own_log =>
    intro t m hm ht
    by_cases e : t = s.term n
    · subst e
      have em : m = n := Option.some.inj (hm.symm.trans lead)
      subst em
      simp [State.append]
    · have em : m ≠ n := fun em => e (by rw [← ht, em]; rfl)
      simpa [State.append, e, em] using r.own_log t m hm ht
  case leader_below =>
    intro u m hm
    exact ((r.leader_below u m hm).append x i role hm rfl).extend (log_le m)
  case leader_at =>
    intro u m hm P o
    rcases o.append i role with o | ⟨rfl, rfl⟩
    · exact ((r.leader_at u m hm P o).mono x).extend (log_le m)
    · have em : m = n := Option.some.inj (hm.symm.trans lead)
      subst em
      exact Or.inl (by simp [State.append])
  case message_leader => exact r.message_leader
  case message_below =>
    exact fun m hm => (r.message_below m hm).append x i role (r.message_leader m hm) rfl
  case message_at =>
    intro m hm
    rcases r.message_at m hm with h | ⟨lt, kept⟩
    · exact Or.inl (h.trans (x.led _ _ (r.message_leader m hm)))
    · refine Or.inr ⟨lt, fun P o => ?_⟩
      rcases o.append i role with o | ⟨ht, _⟩
      · exact (kept P o).mono x
      · -- the sender has left the term, so it is not the one that appends
        have hs := r.message_leader m hm
        rw [ht, lead] at hs
        rw [← Option.some.inj hs] at lt
        omega
  case ack_leader => exact r.ack_leader
  case ack_term => exact r.ack_term
  case ack_count =>
    intro a ha
    obtain ⟨m, hm⟩ := r.ack_leader a ha
    exact (r.ack_count a ha).trans (x.led _ m hm).length_le
  case ack_kept =>
    intro a ha P o hP
    obtain ⟨m, hm⟩ := r.ack_leader a ha
    exact (((r.ack_kept a ha).mono x hm (r.ack_count a ha)) P o hP).extend (log_le _)
  case vote_kept =>
    intro w hw a ha hn lt
    obtain ⟨m, hm⟩ := r.ack_leader a ha
    exact (r.vote_kept w hw a ha hn lt).mono x hm (r.ack_count a ha)
  case vote_upToDate => exact r.vote_upToDate
  case blocked =>
    intro t P o dead
    obtain ⟨u, m, lt, hu, missing⟩ := dead
    rcases o.append i role with o | ⟨rfl, rfl⟩
    · exact r.blocked t P o ⟨u, m, lt, hu, missing⟩
    · -- nobody has acknowledged the new entry, and a later leader has a quorum
      obtain ⟨hB, voted⟩ := v.leader_quorum u m hu
      refine ⟨s.quorum u, hB, fun y hy => ?_⟩
      obtain ⟨w, hw, wv, _, wt, _⟩ := voted y hy
      have ty := v.vote_voter w hw
      rw [wv, wt] at ty
      refine ⟨lt.trans_le ty, fun a ha _ at' => ?_⟩
      have := r.ack_count a ha
      rw [at', ← i.leader_log n role] at this
      simp only [List.length_append, List.length_singleton]
      omega
  case committed =>
    intro p hp
    obtain ⟨⟨m, hm⟩, hb, hl, rest⟩ := r.committed p hp
    exact ⟨⟨m, hm⟩, hb, hl.trans (x.led _ m hm).length_le, rest⟩

omit [DecidableEq N] in
theorem Retained.send (r : Retained Q s) (v : Voting Q s) {n : N} {t : ℤ}
    (lead : s.leader t = some n) : Retained Q (s.send n t) :=
  { r with
    message_leader := by
      rintro m (rfl | hm)
      · exact lead
      · exact r.message_leader m hm
    message_below := by
      rintro m (rfl | hm)
      · exact r.leader_below t n lead
      · exact r.message_below m hm
    message_at := by
      rintro m (rfl | hm)
      · rcases (v.leader_term t n lead).2.eq_or_lt with e | lt
        · exact Or.inl ((r.own_log t n lead e.symm) ▸ List.prefix_refl _)
        · exact Or.inr ⟨lt, r.leader_at t n lead⟩
      · exact r.message_at m hm }

omit [DecidableEq N] in
/-- Acknowledgements of what the nodes hold at this moment may be added. -/
theorem Retained.acknowledge (r : Retained Q s) (v : Voting Q s) {A : Set (Ack N)}
    (old : s.acks ⊆ A)
    (new : ∀ a ∈ A, a ∈ s.acks ∨ (a.term = s.term a.node ∧ (∃ n, s.leader a.term = some n) ∧
      a.count ≤ (s.led a.term).length ∧ KeepsTo s a.term a.count (s.log a.node))) :
    Retained Q { s with acks := A } :=
  { r with
    ack_leader := fun a ha => (new a ha).elim (r.ack_leader a) fun h => h.2.1
    ack_term := fun a ha => (new a ha).elim (r.ack_term a) fun h => h.1.le
    ack_count := fun a ha => (new a ha).elim (r.ack_count a) fun h => h.2.2.1
    ack_kept := fun a ha => (new a ha).elim (r.ack_kept a) fun h => h.2.2.2
    vote_kept := by
      intro w hw a ha hn lt
      rcases new a ha with ha | ⟨ht, _⟩
      · exact r.vote_kept w hw a ha hn lt
      · have := v.vote_voter w hw
        rw [ht, hn] at lt
        omega
    blocked := by
      intro t P o dead
      obtain ⟨B, hB, hv⟩ := r.blocked t P o dead
      refine ⟨B, hB, fun y hy => ⟨(hv y hy).1, fun a ha an at' => ?_⟩⟩
      rcases new a ha with ha | ⟨ht, _⟩
      · exact (hv y hy).2 a ha an at'
      · have := (hv y hy).1
        rw [ht, an] at at'
        omega
    committed := by
      intro p hp
      obtain ⟨hn, hb, hl, B, hB, acked⟩ := r.committed p hp
      refine ⟨hn, hb, hl, B, hB, fun y hy => ?_⟩
      obtain ⟨a, ha, facts⟩ := acked y hy
      exact ⟨a, old ha, facts⟩ }

/-- Taking over a message's log drops no own prefix that is alive. -/
theorem Retained.takeOver (r : Retained Q s) (vo : Voting Q s) {v : N} {m : Message N Op}
    {l : Log Op} (hm : m ∈ s.messages) (term : s.term v = m.term)
    (merged : Merged (s.log v) l m.log) : Retained Q { s with log := update s.log v l } := by
  rcases merged with ⟨_, rfl⟩ | ⟨differs, rfl⟩
  · simpa using r
  -- the node has never led this term: its log would extend the message
  have notOwn : s.leader m.term ≠ some v := by
    intro lead
    have sender := r.message_leader m hm
    rw [lead] at sender
    rcases r.message_at m hm with h | ⟨lt, _⟩
    · exact differs (r.own_log _ v lead term ▸ h)
    · rw [← Option.some.inj sender] at lt
      omega
  have keep {u : ℤ} {P : Log Op} (lt : u < m.term) (o : Own s u P) : Kept s u P m.log :=
    r.message_below m hm u lt P o
  have ledBefore {u : ℤ} (hn : s.leader u = some v) : u < m.term := by
    refine lt_of_le_of_ne (term ▸ (vo.leader_term u v hn).2) ?_
    rintro rfl
    exact notOwn hn
  exact { r with
    own_log := by
      intro t n hn ht
      have e : n ≠ v := by
        rintro rfl
        have ht : s.term n = t := ht
        exact notOwn (term ▸ ht ▸ hn)
      simpa [e] using r.own_log t n hn ht
    leader_below := by
      intro u n hn
      change Below s u (update s.log v m.log n)
      by_cases e : n = v
      · subst e
        rw [Function.update_self]
        exact fun t lt P o => keep (lt.trans (ledBefore hn)) o
      · rw [Function.update_of_ne e]
        exact r.leader_below u n hn
    leader_at := by
      intro u n hn P o
      change Kept s u P (update s.log v m.log n)
      by_cases e : n = v
      · subst e
        rw [Function.update_self]
        exact keep (ledBefore hn) o
      · rw [Function.update_of_ne e]
        exact r.leader_at u n hn P o
    ack_kept := by
      intro a ha P o hP
      change Kept s a.term P (update s.log v m.log a.node)
      by_cases e : a.node = v
      · rw [e, Function.update_self]
        have le := r.ack_term a ha
        rw [e, term] at le
        rcases le.lt_or_eq with lt | same
        · exact keep lt o
        · have o : Own s a.term P := o
          rcases r.message_at m hm with led | ⟨_, kept⟩
          · rcases le_total P.length m.log.length with short | long
            · exact Or.inl (List.prefix_of_prefix_length_le (same ▸ o.2.1) led short)
            · -- the message is behind what the node has acknowledged already
              refine (r.ack_kept a ha P o hP).imp_left fun h => absurd ?_ differs
              rw [e] at h
              exact (List.prefix_of_prefix_length_le led (same ▸ o.2.1) long).trans h
          · exact same ▸ kept P (same ▸ o)
      · rw [Function.update_of_ne e]
        exact r.ack_kept a ha P o hP }

theorem Retained.accept (r : Retained Q s) (vo : Voting Q s) {v : N} {m : Message N Op}
    {l : Log Op} (hm : m ∈ s.messages) (term : s.term v = m.term)
    (role : s.role v = .follower) (merged : Merged (s.log v) l m.log) :
    Retained Q (s.accept v m l) := by
  have taken := r.takeOver vo hm term merged
  have voting : Voting Q { s with log := update s.log v l } := vo.setLog (by simp [role]) rfl
  have lead := r.message_leader m hm
  refine { taken.acknowledge voting Set.subset_union_left ?_ with }
  rintro a (ha | ⟨rfl, led⟩)
  · exact Or.inl ha
  · refine Or.inr ⟨term.symm, ⟨_, lead⟩, led.length_le, fun P o hP => Or.inl ?_⟩
    change P <+: update s.log v l v
    rw [Function.update_self]
    exact (List.prefix_of_prefix_length_le o.2.1 led hP).trans merged.message_whole

theorem Retained.commitTo (r : Retained Q s) (v : Voting Q s) (i : Matching s) {n : N} {k : ℕ}
    {A : Finset N} (role : s.role n = .leader) (above : (s.base (s.term n)).length < k)
    (le : k ≤ (s.log n).length) (quorum : Q.IsQuorum A) (replicated : Replicated s n k A) :
    Retained Q (s.commitTo n k) := by
  have lead := v.leader_role n role
  have acked : Retained Q { s with acks := insert ⟨n, s.term n, k⟩ s.acks } := by
    refine r.acknowledge v (Set.subset_insert _ _) ?_
    rintro a (rfl | ha)
    · refine Or.inr ⟨rfl, ⟨n, lead⟩, i.leader_log n role ▸ le, fun P o hP => Or.inl ?_⟩
      exact i.leader_log n role ▸ o.2.1
    · exact Or.inl ha
  refine { acked with committed := ?_ }
  rintro p (rfl | hp)
  · refine ⟨⟨n, lead⟩, above, i.leader_log n role ▸ le, A, quorum, fun y hy => ?_⟩
    rcases replicated y hy with rfl | ⟨j, hj, ha⟩
    · exact ⟨_, Set.mem_insert _ _, rfl, rfl, le_rfl⟩
    · exact ⟨_, Set.mem_insert_of_mem _ ha, rfl, rfl, hj⟩
  · exact acked.committed p hp

theorem Retained.step (r : Retained Q s) (v : Voting Q s) (i : Matching s) (d : Ordered s)
    (h : Step Q .pastLeader s s') : Retained Q s' := by
  cases h with
  | startElection n _ => exact r.startElection v
  | observe n t h =>
      exact r.setTerm h (fun lead => le_antisymm (v.leader_term t n lead).2 h)
        r.vote_kept r.vote_upToDate
  | request n t _ => exact { r with }
  | grant u q _ _ up _ => exact r.grant up
  | elect n A role quorum votes => exact r.elect v i d role quorum votes
  | append n op role => exact r.append v i role
  | send n t lead => exact r.send v lead
  | accept u m l hm term role merged => exact r.accept v hm term role merged
  | commitTo n k A role above le quorum replicated =>
      exact r.commitTo v i role above le quorum replicated

/-- Everything that is known when messages come from past leaders only. -/
structure Sound (Q : Quorum.System N) (s : State N Op) : Prop where
  voting : Voting Q s
  matching : Matching s
  ordered : Ordered s
  retained : Retained Q s

omit [DecidableEq N] in
theorem Sound.init : Sound Q (State.init : State N Op) :=
  ⟨.init, .init, .init, .init⟩

theorem Sound.step (i : Sound Q s) (h : Step Q .pastLeader s s') : Sound Q s' :=
  ⟨i.voting.step h, i.matching.step i.voting h, i.ordered.step i.voting i.matching h,
    i.retained.step i.voting i.matching i.ordered h⟩

theorem Sound.steps (i : Sound Q s) (h : Steps Q .pastLeader s s') : Sound Q s' := by
  induction h with
  | refl => exact i
  | tail _ h ih => exact ih.step h

end LeaderLog
