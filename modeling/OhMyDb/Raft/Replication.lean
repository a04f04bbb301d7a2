import OhMyDb.Raft.Voting

/-!
The log side of the simulation. Four conditions say where the code relies on a
leadership it has checked under an earlier acquisition of the mutex: the append
loop of `runLeaderOneIter` runs after the check of the role in `raftImpl`, a
sender thread builds its request after it has been started, and the reply handler
compares the reply with the term its thread was started in.
-/

namespace OhMyDb
open Execution
open LeaderLog (Step Steps Evolves Elsewhere Held Agreed)

namespace Cluster

/-- A condition on a step of the thread of `raftImpl`. -/
def AtRaftImpl (P : Replica → Prop) (c : Cluster) : Action → Prop
  | .raftImpl r => P (c.node r)
  | _ => True

instance {P : Replica → Prop} [DecidablePred P] (c : Cluster) (a : Action) :
    Decidable (AtRaftImpl P c a) :=
  match a with
  | .raftImpl _ => inferInstanceAs (Decidable (P _))
  | .electionTick _ _ _ | .voteSend _ _ | .voteDeliver _ _ _ | .voteReturn _ _ _ _
  | .voteFail _ _ | .appendSend _ _ _ | .appendDeliver _ _ _ | .appendResume _ _
  | .appendReturn _ _ _ _ | .appendFail _ _ | .executer _ _ | .clientGet _ _ | .clientPut _ _ _
  | .addServer _ _ | .removeServer _ _ | .callStep _ _ _ => inferInstanceAs (Decidable True)

/-- A condition on the step in which a sender thread builds its request. -/
def AtAppendSend (P : Replica → AppendThread → Prop) (c : Cluster) : Action → Prop
  | .appendSend r k _ => ∀ t ∈ (c.node r).appendThreads[k]?, P (c.node r) t
  | _ => True

instance {P : Replica → AppendThread → Prop} [∀ r t, Decidable (P r t)] (c : Cluster)
    (a : Action) : Decidable (AtAppendSend P c a) :=
  match a with
  | .appendSend _ _ _ => inferInstanceAs (Decidable (∀ _, _ → _))
  | .electionTick _ _ _ | .voteSend _ _ | .voteDeliver _ _ _ | .voteReturn _ _ _ _
  | .voteFail _ _ | .raftImpl _ | .appendDeliver _ _ _ | .appendResume _ _
  | .appendReturn _ _ _ _ | .appendFail _ _ | .executer _ _ | .clientGet _ _ | .clientPut _ _ _
  | .addServer _ _ | .removeServer _ _ | .callStep _ _ _ => inferInstanceAs (Decidable True)

/-- A condition on the step in which a sender thread takes its reply. -/
def AtAppendReturn (P : Replica → AppendThread → AppendEntriesRet → Prop) (c : Cluster) :
    Action → Prop
  | .appendReturn r k reply _ => ∀ t ∈ (c.node r).appendThreads[k]?, P (c.node r) t reply
  | _ => True

instance {P : Replica → AppendThread → AppendEntriesRet → Prop}
    [∀ r t reply, Decidable (P r t reply)] (c : Cluster) (a : Action) :
    Decidable (AtAppendReturn P c a) :=
  match a with
  | .appendReturn _ _ _ _ => inferInstanceAs (Decidable (∀ _, _ → _))
  | .electionTick _ _ _ | .voteSend _ _ | .voteDeliver _ _ _ | .voteReturn _ _ _ _
  | .voteFail _ _ | .raftImpl _ | .appendSend _ _ _ | .appendDeliver _ _ _ | .appendResume _ _
  | .appendFail _ _ | .executer _ _ | .clientGet _ _ | .clientPut _ _ _
  | .addServer _ _ | .removeServer _ _ | .callStep _ _ _ => inferInstanceAs (Decidable True)

/-- A replica that appends queued operations is still leader. -/
def LeaderAppendsOps : Cluster → Action → Prop :=
  AtRaftImpl fun r => r.raftThread = .isLeader → r.raftIn ≠ [] → r.state.role = .leader

/-- A replica that starts to send, with or without new operations, is still leader. -/
def LeaderAppends : Cluster → Action → Prop :=
  AtRaftImpl fun r => r.raftThread = .isLeader → r.state.role = .leader

/-- A leader takes replies for its present term only. -/
def RepliesOfThisTerm : Cluster → Action → Prop :=
  AtAppendReturn fun r t reply => r.state.role = .leader → t.savedCurrentTerm = reply.term →
    r.state.currentTerm = t.savedCurrentTerm

/-- A request is built by a replica that is leader of the request's term. -/
def LeaderSends : Cluster → Action → Prop :=
  AtAppendSend fun r t => r.state.role = .leader ∧ r.state.currentTerm = t.savedCurrentTerm

instance (c : Cluster) (a : Action) : Decidable (c.LeaderAppendsOps a) :=
  inferInstanceAs (Decidable (AtRaftImpl _ c a))

instance (c : Cluster) (a : Action) : Decidable (c.LeaderAppends a) :=
  inferInstanceAs (Decidable (AtRaftImpl _ c a))

instance (c : Cluster) (a : Action) : Decidable (c.RepliesOfThisTerm a) :=
  inferInstanceAs (Decidable (AtAppendReturn _ c a))

instance (c : Cluster) (a : Action) : Decidable (c.LeaderSends a) :=
  inferInstanceAs (Decidable (AtAppendSend _ c a))

end Cluster

section Leader
variable {ℓ : Level} {config : IntMap ServerInfo} {b b' : AbstractState} {r : Int} {x : Replica}
  {c : Cluster}

theorem abstractLog_ops (term : Int) (ops : List RaftOp) :
    abstractLog (ops.map fun op => ⟨term, op⟩) =
      (ops.map (·.command)).map fun op => ⟨term, op⟩ := by
  simp [abstractLog]

/-- The append loop of a leader. -/
theorem Stands.leaderAppend (st : Stands ℓ b r x) (reached : ℓ.Reached config b)
    (client : ∀ op ∈ x.raftIn, op.command.isClient = true)
    (ops : x.raftIn ≠ [] → x.state.role = .leader)
    (leader : ℓ ≠ .matching → x.state.role = .leader) :
    Answers ℓ config b r (x.leaderAppend x.state.currentTerm x.raftIn) := by
  rw [Replica.leaderAppend_client x _ client]
  have m := st.mirrors
  have abstract : x.state.role = .leader → b.role r = .leader := fun h => by
    rw [m.role, h]
    rfl
  have steps : Steps (quorums config) ℓ.discipline b
      (b.appends r (x.raftIn.map (·.command))) := by
    cases hi : x.raftIn with
    | nil => exact .refl
    | cons op rest => exact Steps.appends (abstract (ops (by rw [hi]; nofun))) _
  have e := reached.evolves steps
  obtain ⟨led, eq⟩ := b.appends_eq r (x.raftIn.map (·.command))
  refine ⟨_, steps, LeaderLog.elsewhere_appends b r _, fun a ha => Or.inl ?_, ?_, ?_,
    st.requested.evolve e, ?_, ?_, st.recalls.evolve e⟩
  · rw [eq] at ha
    exact ha
  · rw [eq]
    constructor
    case term => exact m.term
    case role => exact m.role
    case alive => exact m.alive
    case log =>
      change Function.update b.log r _ r = abstractLog (Replica.persistLogs _).state.logs.items
      rw [Function.update_self, m.log, m.term, Replica.persistLogs, LogVector.persist_items,
        Replica.appendItems_items, abstractLog_append, abstractLog_ops]
    case commit => exact m.commit
  · rw [eq]
    exact st.voted
  · refine (st.sends.evolve e).atThread ?_
    rintro _ ⟨⟩ hl
    refine e.leader _ _ ?_
    exact m.term ▸ reached.voting.leader_role r (abstract (leader hl))
  · refine (st.leads.evolve e).congr rfl rfl ?_ rfl rfl
    change x.state.logs.size ≤ (LogVector.persist _).size
    simp only [LogVector.size, LogVector.persist_items, Replica.appendItems_items,
      List.length_append]
    omega

theorem Stands.raftImpl (st : Stands ℓ b r x) (reached : ℓ.Reached config b)
    (static : x.Static config)
    (ops : x.raftThread = .isLeader → x.raftIn ≠ [] → x.state.role = .leader)
    (leader : ℓ ≠ .matching → x.raftThread = .isLeader → x.state.role = .leader) :
    Answers ℓ config b r x.raftImpl := by
  unfold Replica.raftImpl
  cases hp : x.raftThread with
  | top => exact .same { st with sends := st.sends.atThread fun _ h => nomatch h }
  | swapped =>
      refine .same { st with sends := st.sends.atThread fun saved h => ?_ }
      simp only at h
      split at h <;> cases h
  | isLeader => exact st.leaderAppend reached static.raftIn (ops hp) fun hl => leader hl hp
  | updatingPeers saved update rest => exact absurd hp (static.notUpdating _ _ _)
  | relocking saved rest => exact absurd hp (static.notRelocking _ _)
  | spawning saved =>
      have sd := st.sends
      refine .same { st with sends := ⟨?_, ?_, ?_, fun _ _ h => nomatch h⟩ }
      · intro t ht args ha
        rcases List.mem_append.mp ht with ht | ht
        · exact sd.message t ht args ha
        · obtain ⟨p, _, rfl⟩ := List.mem_map.mp ht
          cases ha
      · intro t ht
        rcases List.mem_append.mp ht with ht | ht
        · exact sd.unsent t ht
        · obtain ⟨p, _, rfl⟩ := List.mem_map.mp ht
          exact fun _ => rfl
      · intro hl t ht
        rcases List.mem_append.mp ht with ht | ht
        · exact sd.thread hl t ht
        · obtain ⟨p, _, rfl⟩ := List.mem_map.mp ht
          exact sd.spawning hl saved hp
  | sleeping => exact .same { st with sends := st.sends.atThread fun _ h => nomatch h }

/-- A sender thread reads the log and sends it. -/
theorem Stands.appendSend (st : Stands ℓ b r x) (reached : ℓ.Reached config b) {k : Nat}
    {t : AppendThread} (ht : x.appendThreads[k]? = some t) (fresh : t.args = none)
    (present : ℓ = .executing → x.state.role = .leader ∧
      x.state.currentTerm = t.savedCurrentTerm) (junk : Int) :
    Answers ℓ config b r
      ({ x with state := { x.state with
          nextIndex := (x.state.nextIndex.subscript t.peer 0).2 } }.updateAppendThread k fun u =>
        { u with
          nextIndex := (x.state.nextIndex.subscript t.peer 0).1
          args := some (x.appendParams u.savedCurrentTerm
            (x.state.nextIndex.subscript t.peer 0).1 junk) }) := by
  have m := st.mirrors
  have mem := List.mem_of_getElem? ht
  have allowed : ℓ.discipline b r t.savedCurrentTerm := by
    cases ℓ with
    | matching => trivial
    | counting => exact st.sends.thread nofun t mem
    | executing =>
        obtain ⟨role, term⟩ := present rfl
        exact ⟨by rw [m.role, role]; rfl, m.term.trans term⟩
  have step : Step (quorums config) ℓ.discipline b (b.send r t.savedCurrentTerm) :=
    .send b r _ allowed
  have e := step.evolves reached.voting reached.matching
  have sd := st.sends.evolve e
  have length : ((b.log r).length : Int) = x.state.logs.size := by
    rw [m.log, abstractLog_length]
    rfl
  -- what a leader reads is inside its log
  have inside : ℓ ≠ .matching → x.state.role = .leader →
      (x.state.nextIndex.subscript t.peer 0).1 ≤ (b.log r).length := by
    intro hl role
    rw [length]
    rcases IntMap.subscript_value (v := (x.state.nextIndex.subscript t.peer 0).1) rfl with
      found | default
    · exact st.leads.nextIndex hl role _ _ found
    · rw [default]
      exact Int.natCast_nonneg _
  refine .step reached step { Elsewhere.refl r b with } ⟨{ m with }, st.voted,
    st.requested.evolve e, ⟨?_, ?_, ?_, sd.spawning⟩, ⟨?_, (st.leads.evolve e).matchIndex⟩,
    st.recalls.evolve e⟩
  · intro u hu args ha
    rcases List.mem_or_eq_of_mem_modify hu with hu | ⟨u, hk, rfl⟩
    · exact sd.message u hu args ha
    · obtain rfl := Option.some.inj (hk.symm.trans ht)
      obtain rfl := Option.some.inj ha
      refine ⟨⟨r, u.savedCurrentTerm, b.log r, b.commit r⟩, rfl, Set.mem_insert _ _, rfl, rfl,
        ?_, ?_, ?_, ?_⟩
      · rw [m.log]
        exact x.appendParams_encodes _ _ _
      · intro hl role _
        refine inside hl (RaftRole.abstract_leader.mp ?_)
        exact m.role.symm.trans role
      · intro _ _ reply hr
        rw [sd.unsent u mem fresh] at hr
        cases hr
      · intro hl
        exact ⟨inside (by rw [hl]; nofun) (present hl).1, m.commit hl⟩
  · intro u hu none
    rcases List.mem_or_eq_of_mem_modify hu with hu | ⟨u, hk, rfl⟩
    · exact sd.unsent u hu none
    · cases none
  · intro hl u hu
    rcases List.mem_or_eq_of_mem_modify hu with hu | ⟨u, hk, rfl⟩
    · exact sd.thread hl u hu
    · exact sd.thread hl u (List.mem_of_getElem? hk)
  · intro hl role p v hv
    rcases IntMap.lookup_subscript hv with found | rfl
    · exact st.leads.nextIndex hl role p v found
    · exact Int.natCast_nonneg _

end Leader
end OhMyDb
