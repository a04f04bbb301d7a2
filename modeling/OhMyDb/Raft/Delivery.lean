import OhMyDb.Raft.Replication

/-!
Serving `AppendEntries`. A replica that accepts the parameters makes the abstract
step with the message they stand for. Where they come from a leader that reads
beyond its log they carry no entries, and the log stays as it is.
-/

namespace OhMyDb
open Execution
open LeaderLog (Step Steps Evolves Elsewhere Held Agreed Message)

section Follower
variable {ℓ : Level} {config : IntMap ServerInfo} {b b' : AbstractState} {r : Int}
  {x y : Replica} {c : Cluster} {args : AppendEntriesParams} {now : Int}
  {m : Message Int Command}

theorem Stands.meetLeader (st : Stands ℓ b r x) (reached : ℓ.Reached config b)
    (args : AppendEntriesParams) (now : Int) :
    ∃ b', Steps (quorums config) ℓ.discipline b b' ∧ Elsewhere r b b' ∧ b'.acks = b.acks ∧
      Stands ℓ b' r { x with state := x.meetLeader args now } := by
  obtain ⟨_, _, _, _, eq⟩ := x.meetLeader_eq args now
  have logs : (x.meetLeader args now).logs = x.state.logs := by rw [eq]; rfl
  have commitIndex : (x.meetLeader args now).commitIndex = x.state.commitIndex := by rw [eq]; rfl
  have nextIndex : (x.meetLeader args now).nextIndex = x.state.nextIndex := by rw [eq]; rfl
  have matchIndex : (x.meetLeader args now).matchIndex = x.state.matchIndex := by rw [eq]; rfl
  rcases Replica.meetLeader_cases st.mirrors.alive args now with
    ⟨_, role, term⟩ | ⟨le, role, term⟩
  · refine ⟨b, .refl, .refl r b, rfl, ?_, st.voted, st.requested, st.sends,
      st.leads.congr role term (by rw [logs]) nextIndex matchIndex, st.recalls⟩
    exact ⟨st.mirrors.term.trans term.symm, by rw [role]; exact st.mirrors.role,
      by rw [role]; exact st.mirrors.alive, logs ▸ st.mirrors.log,
      commitIndex ▸ st.mirrors.commit⟩
  · obtain ⟨step, st'⟩ := st.observe (s := x.meetLeader args now) reached (term ▸ le) role logs
      commitIndex
    exact ⟨_, .single step, LeaderLog.elsewhere_observe b r _, rfl, st'⟩

/-- After the merge, the commit rule. -/
theorem Stands.followCommit (st : Stands ℓ b r x) (e : Evolves b b') (votes : b'.votes = b.votes)
    {items : List LogEntry} (merged : Replica.MergedTo x items y) {leaderCommit : Int}
    (m : Mirrors ℓ b' r (y.followCommit leaderCommit).state) (role : x.state.role = .follower)
    (agreed : ℓ = .executing → Agreed b') : Stands ℓ b' r (y.followCommit leaderCommit) := by
  have quiet := y.quiet_followCommit leaderCommit
  obtain ⟨_, _, _, _, eq⟩ := y.followCommit_eq leaderCommit
  have logs : (y.followCommit leaderCommit).state.logs = y.state.logs := by rw [eq]
  have threads : (y.followCommit leaderCommit).appendThreads = y.appendThreads := by rw [eq]
  have pushed (e : Event) (h : e ∈ (y.followCommit leaderCommit).hist) :=
    Replica.mem_followCommit h
  obtain ⟨_, ps, ms, notes, rfl⟩ := merged.rest
  refine ⟨m, ?_, ?_, ?_, .of_role (by rw [quiet.role]; exact role ▸ nofun), ?_⟩
  · intro q t
    rw [votes]
    exact quiet.voted.trans ((mem_notes notes rfl).trans (st.voted q t))
  · rw [quiet.voteThreads]
    exact st.requested.evolve e
  · rw [threads, quiet.raftThread]
    exact st.sends.evolve e
  · refine (st.recalls.evolve e).extend fun ev h => ?_
    rcases pushed ev h with h | ⟨i, op, rfl, pos, le, entry⟩
    · exact (List.mem_append.mp h).symm.imp_right fun h => Or.inl (notes ev h)
    · exact Or.inr (Or.inr (Or.inr ⟨i, op, rfl,
        fun hl => m.pushed hl (agreed hl) pos le (by rw [logs]; exact entry)⟩))

/-- A follower takes over what the message carries. -/
theorem Stands.accept (st : Stands ℓ b r x) (reached : ℓ.Reached config b) {nextIndex : Int}
    (mem : m ∈ b.messages) (term : m.term = x.state.currentTerm)
    (role : x.state.role = .follower) (enc : Encodes m.log nextIndex args)
    (le : nextIndex ≤ m.log.length)
    (commit : ℓ = .executing → (m.commit : Int) = args.leaderCommit + 1)
    (prev : Replica.prevMatches x.state.logs args)
    (merged : Replica.MergedTo x (Replica.mergedItems x.state.logs args) y) :
    Step (quorums config) ℓ.discipline b
      (b.accept r m (abstractLog (Replica.mergedItems x.state.logs args))) ∧
    Stands ℓ (b.accept r m (abstractLog (Replica.mergedItems x.state.logs args))) r
      (y.followCommit args.leaderCommit) := by
  have mi := st.mirrors
  have genuine := reached.matching.log r
  rw [mi.log] at genuine
  have step : Step (quorums config) ℓ.discipline b
      (b.accept r m (abstractLog (Replica.mergedItems x.state.logs args))) := by
    refine .accept b r m _ mem (mi.term.trans term.symm) (by rw [mi.role, role]; rfl) ?_
    rw [mi.log]
    exact Replica.mergedItems_merged
      (genuine.alike (reached.matching.message m mem)) enc le prev
  have e := step.evolves reached.voting reached.matching
  have agreed := fun hl => Level.Reached.agreed (reached.tail step) hl
  refine ⟨step, st.followCommit e rfl merged ?_ role agreed⟩
  obtain ⟨_, _, _, _, eq⟩ := y.followCommit_eq args.leaderCommit
  have final := y.followCommit_commitIndex args.leaderCommit
  have items := merged.items
  obtain ⟨logs, ps, ms, _, rfl⟩ := merged.rest
  constructor
  case term => rw [eq]; exact mi.term
  case role => rw [eq]; exact mi.role
  case alive => rw [eq]; exact mi.alive
  case log =>
    rw [eq]
    change Function.update b.log r _ r = abstractLog logs.items
    rw [Function.update_self, show logs.items = _ from items]
  case commit =>
    intro hl
    have inside := (agreed hl).commit_le r
    have before := mi.commit hl
    have sent := commit hl
    rw [final]
    simp only [LeaderLog.State.accept, Function.update_self, abstractLog_length] at inside ⊢
    change _ = (if args.leaderCommit > x.state.commitIndex then
      min args.leaderCommit ((logs.items.length : Int) - 1) else x.state.commitIndex) + 1
    rw [show logs.items = _ from items]
    split <;> omega

/-- A sender that reads beyond its log sends nothing. -/
theorem Encodes.beyond {log : AbstractLog} {nextIndex : Int} (enc : Encodes log nextIndex args)
    (h : log.length < nextIndex) : args.entries = [] := by
  have entries := enc.entries
  rw [if_neg (by omega), List.drop_of_length_le (by omega)] at entries
  rw [← List.length_eq_zero_iff, ← abstractEntries_length, entries]
  rfl

/-- The answer to a served request, and what the sender may conclude from the reply. -/
theorem Stands.serve (st : Stands ℓ b r x) (reached : ℓ.Reached config b) {t : AppendThread}
    (carries : Carries ℓ b t args m) {x' : Replica} {ret : AppendEntriesRet}
    (sv : Replica.Served x args now x' ret) :
    ∃ b', Steps (quorums config) ℓ.discipline b b' ∧ Elsewhere r b b' ∧
      (∀ a ∈ b'.acks, a ∈ b.acks ∨ Held b' a) ∧ Stands ℓ b' r x' ∧
      (ℓ ≠ .matching → t.nextIndex ≤ m.log.length → ret.success = true →
        ⟨r, m.term, m.log.length⟩ ∈ b'.acks ∨ m.term < b'.term m.sender) := by
  obtain ⟨b₁, steps, el, acks, st₁⟩ := st.meetLeader reached args now
  have reached₁ : ℓ.Reached config b₁ := reached.trans steps
  cases sv with
  | dead _ dead => exact absurd dead st.mirrors.alive
  | refused _ _ => exact ⟨b₁, steps, el, fun a ha => Or.inl (acks ▸ ha), st₁, nofun⟩
  | accepted y alive term prev merged =>
      have role : (x.meetLeader args now).role = .follower := by
        rcases Replica.meetLeader_cases alive args now with ⟨lt, _, same⟩ | ⟨_, role, _⟩
        · exact absurd (term.trans same) lt.ne
        · exact role
      obtain ⟨_, _, _, _, eq⟩ := x.meetLeader_eq args now
      have logs : (x.meetLeader args now).logs = x.state.logs := by rw [eq]; rfl
      rw [← logs] at prev merged
      have mem := (reached.evolves steps).messages carries.mem
      have messageTerm : m.term = (x.meetLeader args now).currentTerm :=
        (carries.term.trans carries.argsTerm.symm).trans term
      by_cases le : t.nextIndex ≤ m.log.length
      · obtain ⟨step, st₂⟩ := st₁.accept reached₁ mem messageTerm role carries.encodes le
          (fun hl => (carries.commit hl).2) prev merged
        refine ⟨_, steps.tail step, el.trans (LeaderLog.elsewhere_accept _ _ _ _), ?_, st₂, ?_⟩
        · exact fun a ha => acks ▸ step.held reached₁.matching ha
        · intro hl _ _
          rcases (reached₁.sound hl).retained.message_at m mem with led | ⟨later, _⟩
          · exact Or.inl (Or.inr ⟨rfl, led⟩)
          · exact Or.inr later
      · have unchanged := Replica.mergedItems_nil (x.meetLeader args now).logs
          (carries.encodes.beyond (not_le.mp le))
        refine ⟨b₁, steps, el, fun a ha => Or.inl (acks ▸ ha), ?_, fun _ h => absurd h le⟩
        have mi := st₁.mirrors
        have agreed := fun hl => reached₁.agreed hl
        refine st₁.followCommit (.refl b₁) rfl merged ?_ role agreed
        obtain ⟨_, _, _, _, eq⟩ := y.followCommit_eq args.leaderCommit
        have items := merged.items
        obtain ⟨logs', ps, ms, _, rfl⟩ := merged.rest
        rw [eq]
        refine ⟨mi.term, mi.role, mi.alive, ?_, fun hl => absurd (carries.commit hl).1 le⟩
        rw [mi.log]
        exact congrArg abstractLog ((items.trans unchanged).symm)

/-- The reply reaches the sender thread. -/
theorem Simulates.pushAppendReply (sim : Simulates ℓ c b) {k : Nat} {t : AppendThread}
    {ret : AppendEntriesRet} (ht : (c.node r).appendThreads[k]? = some t)
    (ha : t.args = some args) (sender : m.sender = r) (carries : Carries ℓ b t args m)
    (reply : ℓ ≠ .matching → t.nextIndex ≤ m.log.length → ret.success = true →
      ⟨t.peer, m.term, m.log.length⟩ ∈ b.acks ∨ m.term < b.term m.sender) :
    Simulates ℓ (c.pushAppendReply r k ret) b := by
  have sd := (sim r).sends
  refine sim.setSame { sim r with sends := ⟨?_, ?_, ?_, sd.spawning⟩ }
  · intro u hu args' ha'
    rcases List.mem_or_eq_of_mem_modify hu with hu | ⟨u, hk, rfl⟩
    · exact sd.message u hu args' ha'
    · obtain rfl := Option.some.inj (hk.symm.trans ht)
      obtain rfl := Option.some.inj (ha'.symm.trans ha)
      refine ⟨m, sender, { carries with acked := ?_ }⟩
      intro hl le reply' hr ok
      rcases List.mem_cons.mp hr with rfl | hr
      · exact reply hl le ok
      · exact carries.acked hl le reply' hr ok
  · intro u hu none
    rcases List.mem_or_eq_of_mem_modify hu with hu | ⟨u, hk, rfl⟩
    · exact sd.unsent u hu none
    · obtain rfl := Option.some.inj (hk.symm.trans ht)
      exact nomatch (none.symm.trans ha)
  · intro hl u hu
    rcases List.mem_or_eq_of_mem_modify hu with hu | ⟨u, hk, rfl⟩
    · exact sd.thread hl u hu
    · exact sd.thread hl u (List.mem_of_getElem? hk)

theorem Simulates.appendDeliver (sim : Simulates ℓ c b) (reached : ℓ.Reached config b)
    (static : c.Static config) {k : Nat} {t : AppendThread}
    (ht : (c.node r).appendThreads[k]? = some t) (ha : t.args = some args) :
    Follows ℓ config b (c.settleAppend t.peer r k args
      ((c.node t.peer).appendEntries args now).1 ((c.node t.peer).appendEntries args now).2) := by
  have mem := List.mem_of_getElem? ht
  obtain ⟨x, ret, eq, sv⟩ := (c.node t.peer).appendEntries_client now
    ((static r).args t mem args ha)
  obtain ⟨m, rfl, carries⟩ := (sim r).sends.message t mem args ha
  obtain ⟨b', steps, el, held, st, reply⟩ := (sim t.peer).serve reached carries sv
  have e := reached.evolves steps
  rw [eq]
  refine ⟨b', steps, held, (sim.set e el st).pushAppendReply ?_ ha rfl ?_ reply⟩
  · -- serving a request leaves the threads of the server alone
    by_cases self : m.sender = t.peer
    · have threads : x.appendThreads = (c.node t.peer).appendThreads := by
        cases sv with
        | dead _ _ => rfl
        | refused _ _ => rfl
        | accepted y _ _ _ merged =>
            obtain ⟨_, _, _, _, eq⟩ := y.followCommit_eq args.leaderCommit
            obtain ⟨_, _, _, _, rfl⟩ := merged.rest
            rw [eq]
      rw [self] at ht ⊢
      rw [Cluster.set_node, Function.update_self, threads]
      exact ht
    · rw [Cluster.set_node, Function.update_of_ne self]
      exact ht
  · exact carries.evolve e fun hl => carries.term ▸ (sim m.sender).sends.thread hl t mem

end Follower
end OhMyDb
