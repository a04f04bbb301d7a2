import OhMyDb.Lib.LeaderLog.Election

/-!
Log matching. Every entry anywhere in the system, together with everything
before it, is in the log that the leader of the entry's term has built. Two logs
with entries of one term at one position therefore agree up to that position.
This holds whoever sends log messages in the name of a term.
-/

namespace LeaderLog
open Function (update)
variable {N Op : Type*} {Q : Quorum.System N} {D : Discipline N Op} {s s' : State N Op}

/-- Each entry stands where the leader of its term has put it. -/
def Genuine (s : State N Op) (l : Log Op) : Prop :=
  ∀ p e, p ++ [e] <+: l → (∃ n, s.leader e.term = some n) ∧ p ++ [e] <+: s.led e.term

theorem Genuine.nil : Genuine s ([] : Log Op) := by
  intro p e h
  simp at h

theorem Genuine.shorter {l l' : Log Op} (g : Genuine s l) (h : l' <+: l) : Genuine s l' :=
  fun p e hp => g p e (hp.trans h)

theorem Genuine.snoc {l : Log Op} {e : Entry Op} (g : Genuine s l)
    (leader : ∃ n, s.leader e.term = some n) (led : l ++ [e] <+: s.led e.term) :
    Genuine s (l ++ [e]) := by
  intro p e' h
  rcases List.prefix_concat_iff.mp h with h | h
  · obtain ⟨rfl, rfl⟩ := List.append_singleton_inj.mp h
    exact ⟨leader, led⟩
  · exact g p e' h

theorem Genuine.mono {l : Log Op} (g : Genuine s l)
    (leader : ∀ t n, s.leader t = some n → s'.leader t = some n)
    (led : ∀ t n, s.leader t = some n → s.led t <+: s'.led t) : Genuine s' l := by
  intro p e h
  obtain ⟨⟨n, hn⟩, hp⟩ := g p e h
  exact ⟨⟨n, leader _ n hn⟩, hp.trans (led _ n hn)⟩

/-- The entries of the two logs at a position have the same term, so the logs
agree up to there. -/
theorem Genuine.match {l l' : Log Op} (g : Genuine s l) (g' : Genuine s l') {i : ℕ}
    {e e' : Entry Op} (h : l[i]? = some e) (h' : l'[i]? = some e') (same : e.term = e'.term) :
    l.take (i + 1) = l'.take (i + 1) := by
  have cut {k : Log Op} {x : Entry Op} (hx : k[i]? = some x) :
      k.take (i + 1) = k.take i ++ [x] := by
    rw [List.take_add_one, hx, Option.toList_some]
  have p : l.take (i + 1) <+: s.led e.term := by
    rw [cut h]
    exact (g _ e (cut h ▸ List.take_prefix _ _)).2
  have p' : l'.take (i + 1) <+: s.led e.term := by
    rw [cut h', same]
    exact (g' _ e' (cut h' ▸ List.take_prefix _ _)).2
  have hi : i < l.length := (List.getElem?_eq_some_iff.mp h).1
  have hi' : i < l'.length := (List.getElem?_eq_some_iff.mp h').1
  refine (List.prefix_of_prefix_length_le p p' ?_).eq_of_length ?_ <;> simp <;> omega

/-- The log of the last entry's leader extends a nonempty genuine log. -/
theorem Genuine.whole {l : Log Op} {e : Entry Op} (g : Genuine s l) (h : l.getLast? = some e) :
    (∃ n, s.leader e.term = some n) ∧ l <+: s.led e.term := by
  obtain ⟨p, rfl⟩ := List.getLast?_eq_some_iff.mp h
  exact g p e (List.prefix_refl _)

theorem Genuine.leader_of_mem {l : Log Op} {e : Entry Op} (g : Genuine s l) (h : e ∈ l) :
    ∃ n, s.leader e.term = some n := by
  obtain ⟨p, q, rfl⟩ := List.append_of_mem h
  exact (g p e ⟨q, by simp⟩).1

/-- Every log in the system is genuine. -/
structure Matching (s : State N Op) : Prop where
  leader_log : ∀ n, s.role n = .leader → s.log n = s.led (s.term n)
  log : ∀ n, Genuine s (s.log n)
  led : ∀ t n, s.leader t = some n → Genuine s (s.led t)
  own : ∀ t n, s.leader t = some n → ∃ es, s.led t = s.base t ++ es ∧ ∀ e ∈ es, e.term = t
  request : ∀ q ∈ s.requests, Genuine s q.log
  message : ∀ m ∈ s.messages, Genuine s m.log
  vote : ∀ w ∈ s.votes, Genuine s w.voterLog ∧ Genuine s w.candidateLog

theorem Matching.init : Matching (State.init : State N Op) := by
  constructor <;> simp [State.init, Genuine.nil]

theorem Matching.base_led (i : Matching s) {t : ℤ} {n : N} (h : s.leader t = some n) :
    s.base t <+: s.led t := by
  obtain ⟨es, he, _⟩ := i.own t n h
  exact ⟨es, he.symm⟩

theorem Merged.or {old new message : Log Op} (h : Merged old new message) :
    new = old ∨ new = message := by
  rcases h with ⟨_, h⟩ | ⟨_, h⟩
  · exact Or.inl h
  · exact Or.inr h

theorem Merged.message_whole {old new message : Log Op} (h : Merged old new message) :
    message <+: new := by
  rcases h with ⟨hp, rfl⟩ | ⟨_, rfl⟩
  · exact hp
  · exact List.prefix_refl _

variable [DecidableEq N]

/-- The leaders' logs only grow. -/
theorem Step.led_grows (h : Step Q D s s') (v : Voting Q s) (i : Matching s) (t : ℤ) (m : N)
    (hm : s.leader t = some m) : s.led t <+: s'.led t := by
  cases h with
  | elect n A role quorum votes =>
      have e : t ≠ s.term n := by
        rintro rfl
        rw [v.unled role quorum votes] at hm
        cases hm
      simp [State.elect, e]
  | append n op role =>
      by_cases e : t = s.term n
      · subst e
        simp [State.append, i.leader_log n role]
      · simp [State.append, e]
  | _ => exact List.prefix_refl _

theorem Matching.elect (i : Matching s) (v : Voting Q s) {n : N} {A : Finset N}
    (role : s.role n = .candidate) (quorum : Q.IsQuorum A)
    (votes : ∀ v ∈ A, ∃ w ∈ s.votes, w.voter = v ∧ w.candidate = n ∧ w.term = s.term n) :
    Matching (s.elect n A) := by
  have unled := v.unled role quorum votes
  have h : Step Q .anyone s (s.elect n A) := .elect s n A role quorum votes
  have keep {l : Log Op} (g : Genuine s l) : Genuine (s.elect n A) l :=
    g.mono (h.grows v).leader (h.led_grows v i)
  have leader {t : ℤ} {m : N} (hm : (s.elect n A).leader t = some m) (e : t ≠ s.term n) :
      s.leader t = some m := by
    simpa [State.elect, e] using hm
  constructor
  case leader_log =>
    intro m hr
    by_cases e : s.term m = s.term n
    · have hl := (v.step h).leader_role m hr
      have em : m = n := by simpa [State.elect, e] using hl.symm
      subst em
      simp [State.elect]
    · have em : m ≠ n := fun h => e (by rw [h])
      simpa [State.elect, e] using i.leader_log m (by simpa [State.elect, em] using hr)
  case log => exact fun m => keep (i.log m)
  case led =>
    intro t m hm
    by_cases e : t = s.term n
    · subst e
      simpa [State.elect] using keep (i.log n)
    · simpa [State.elect, e] using keep (i.led t m (leader hm e))
  case own =>
    intro t m hm
    by_cases e : t = s.term n
    · subst e
      exact ⟨[], by simp [State.elect], by simp⟩
    · simpa [State.elect, e] using i.own t m (leader hm e)
  case request => exact fun q hq => keep (i.request q hq)
  case message => exact fun m hm => keep (i.message m hm)
  case vote => exact fun w hw => ⟨keep (i.vote w hw).1, keep (i.vote w hw).2⟩

theorem Matching.append (i : Matching s) (v : Voting Q s) {n : N} {op : Op}
    (role : s.role n = .leader) : Matching (s.append n op) := by
  have h : Step Q .anyone s (s.append n op) := .append s n op role
  have lead : s.leader (s.term n) = some n := v.leader_role n role
  have keep {l : Log Op} (g : Genuine s l) : Genuine (s.append n op) l :=
    g.mono (h.grows v).leader (h.led_grows v i)
  have new : Genuine (s.append n op) (s.log n ++ [⟨s.term n, op⟩]) :=
    (keep (i.log n)).snoc ⟨n, lead⟩ (by simp [State.append])
  constructor
  case leader_log =>
    intro m hr
    by_cases em : m = n
    · subst em
      simp [State.append]
    · have e : s.term m ≠ s.term n := by
        intro e
        have hm := v.leader_role m hr
        rw [e, lead] at hm
        exact em (Option.some.inj hm).symm
      simpa [State.append, em, e] using i.leader_log m hr
  case log =>
    intro m
    by_cases em : m = n
    · subst em
      simpa [State.append] using new
    · simpa [State.append, em] using keep (i.log m)
  case led =>
    intro t m hm
    by_cases e : t = s.term n
    · subst e
      simpa [State.append] using new
    · simpa [State.append, e] using keep (i.led t m hm)
  case own =>
    intro t m hm
    by_cases e : t = s.term n
    · subst e
      obtain ⟨es, he, ht⟩ := i.own _ m hm
      refine ⟨es ++ [⟨s.term n, op⟩], ?_, ?_⟩
      · simp [State.append, i.leader_log n role, he]
      · simpa [or_imp, forall_and] using ht
    · simpa [State.append, e] using i.own t m hm
  case request => exact fun q hq => keep (i.request q hq)
  case message => exact fun m hm => keep (i.message m hm)
  case vote => exact fun w hw => ⟨keep (i.vote w hw).1, keep (i.vote w hw).2⟩

theorem Matching.accept (i : Matching s) {v : N} {m : Message N Op} {l : Log Op}
    (hm : m ∈ s.messages) (role : s.role v = .follower) (merged : Merged (s.log v) l m.log) :
    Matching (s.accept v m l) :=
  { i with
    leader_log := by
      intro n hr
      have e : n ≠ v := by
        rintro rfl
        rw [show (s.accept n m l).role n = s.role n from rfl, role] at hr
        cases hr
      simpa [State.accept, e] using i.leader_log n hr
    log := by
      intro n
      change Genuine s (update s.log v l n)
      by_cases e : n = v
      · subst e
        rw [Function.update_self]
        rcases merged.or with rfl | rfl
        · exact i.log n
        · exact i.message m hm
      · rw [Function.update_of_ne e]
        exact i.log n }

/-- A node that leaves its role keeps the invariant. -/
theorem Matching.setTerm (i : Matching s) {n : N} {t : ℤ} {r : Role} {V : Set (Vote N Op)}
    (role : r ≠ .leader) (votes : ∀ w ∈ V, Genuine s w.voterLog ∧ Genuine s w.candidateLog) :
    Matching { s with term := update s.term n t, role := update s.role n r, votes := V } :=
  { i with
    leader_log := by
      intro m hr
      have e : m ≠ n := by
        rintro rfl
        exact role (by simpa using hr)
      simpa [e] using i.leader_log m (by simpa [e] using hr)
    vote := votes }

theorem Matching.step (i : Matching s) (v : Voting Q s) (h : Step Q D s s') : Matching s' := by
  cases h with
  | startElection n _ =>
      refine i.setTerm (by simp) ?_
      rintro w (rfl | hw)
      · exact ⟨i.log n, i.log n⟩
      · exact i.vote w hw
  | observe n t _ => exact i.setTerm (by simp) i.vote
  | request n t _ =>
      exact { i with
        request := by
          rintro q (rfl | hq)
          · exact i.log n
          · exact i.request q hq }
  | grant u q hq _ _ _ =>
      exact { i with
        vote := by
          rintro w (rfl | hw)
          · exact ⟨i.log u, i.request q hq⟩
          · exact i.vote w hw }
  | elect n A role quorum votes => exact i.elect v role quorum votes
  | append n op role => exact i.append v role
  | send n t _ =>
      exact { i with
        message := by
          rintro m (rfl | hm)
          · exact i.log n
          · exact i.message m hm }
  | accept u m l hm _ role merged => exact i.accept hm role merged
  | commitTo n k A _ _ _ _ _ => exact { i with }

theorem Matching.steps (i : Matching s) (v : Voting Q s) (h : Steps Q D s s') : Matching s' := by
  induction h with
  | refl => exact i
  | tail hs h ih => exact ih.step (v.steps hs) h

end LeaderLog
