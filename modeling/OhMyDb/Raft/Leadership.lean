import OhMyDb.Raft.Replication
import OhMyDb.Raft.Stepwise

/-!
Who appends what clients ask for. The role is read under one acquisition of the mutex,
and the entries are pushed under others: a leader appends them, under the term it was
elected in, as long as it is still that leader whenever the mutex has been taken again.
-/

namespace OhMyDb
open Execution

namespace Replica
variable {r r' : Replica}

/-- The term the replica was last elected in. -/
def electedTerm (r : Replica) : Option Int := r.leaderships.head?.map (·.currentTerm)

theorem leaderships_filter (r : Replica) : r.leaderships =
    (r.hist.filter Event.isElection).filterMap fun
      | .becameLeader s => some s
      | _ => none := by
  rw [leaderships, List.filterMap_filter]
  refine List.filterMap_congr fun e _ => ?_
  cases e <;> rfl

theorem Keeps.leaderships (h : Keeps r r') : r'.leaderships = r.leaderships := by
  rw [leaderships_filter, leaderships_filter, h.elections]

/-- What becomes of the leadership of a replica. -/
inductive Reigns (r r' : Replica) : Prop where
  | resigns : r'.state.role ≠ .leader → Reigns r r'
  | stays : r.state.role = .leader → r'.state.currentTerm = r.state.currentTerm →
      r'.leaderships = r.leaderships → Reigns r r'
  | rises (s : RaftState) : r.state.role = .candidate →
      r'.state.currentTerm = r.state.currentTerm → s.currentTerm = r.state.currentTerm →
      r'.leaderships = s :: r.leaderships → Reigns r r'

theorem Reigns.same (role : r'.state.role = r.state.role)
    (term : r'.state.currentTerm = r.state.currentTerm)
    (leaderships : r'.leaderships = r.leaderships) : Reigns r r' := by
  by_cases leads : r.state.role = .leader
  · exact .stays leads term leaderships
  · exact .resigns (role ▸ leads)

theorem Keeps.reigns (h : Keeps r r') : Reigns r r' :=
  .same h.role h.term h.leaderships

/-- Nothing else of the replica has to do with it. -/
theorem Reigns.congr {x : Replica} (h : Reigns r r') (state : x.state = r'.state)
    (hist : x.hist = r'.hist) : Reigns r x := by
  have same : x.leaderships = r'.leaderships := by rw [leaderships, hist, leaderships]
  cases h with
  | resigns role => exact .resigns (state ▸ role)
  | stays leads term kept => exact .stays leads (state ▸ term) (same.trans kept)
  | rises s candidate term elected more =>
      exact .rises s candidate (state ▸ term) elected (same.trans more)

theorem electionTick_reigns (r : Replica) (now timeout : Int) :
    Reigns r (r.electionTick now timeout) := by
  unfold electionTick
  split
  · exact .resigns (by simp [startElection, RaftState.becomeCandidate, RaftState.persist])
  · exact .same rfl rfl rfl

theorem requestVote_reigns (r : Replica) (args : RequestVoteParams) (now : Int) :
    Reigns r (r.requestVote args now).1 := by
  simp only [requestVote, observeTerm]
  split
  · exact .same rfl rfl rfl
  · by_cases later : args.term > r.state.currentTerm
    · simp only [if_pos later]
      split <;> exact .resigns (by simp [RaftState.becomeFollower, RaftState.persist])
    · simp only [if_neg later]
      split <;> exact .same rfl rfl rfl

theorem voteReply_reigns (r : Replica) (saved : Int) (reply : RequestVoteRet) (now : Int) :
    Reigns r (r.voteReply saved reply now) := by
  rcases r.voteReply_cases saved reply now with
    ⟨e, _⟩ | ⟨_, _, e⟩ | ⟨role, _, ⟨_, e⟩ | ⟨_, s, hs, e⟩⟩
  · rw [e]
    exact .same rfl rfl rfl
  · rw [e]
    exact .resigns (by simp [RaftState.becomeFollower, RaftState.persist])
  · rw [e]
    exact .same rfl rfl rfl
  · rw [e]
    exact .rises s role (by rw [hs]; rfl) (by rw [hs]; rfl) rfl

theorem appendEntries_reigns (r : Replica) (args : AppendEntriesParams) (now : Int) :
    Reigns r (r.appendEntries args now).1 := by
  have quiet := r.quiet_appendEntries args now
  by_cases dead : r.state.role = .dead
  · refine .resigns ?_
    rw [quiet.role]
    change (r.meetLeader args now).role ≠ .leader
    rw [meetLeader, if_pos dead, dead]
    decide
  · rcases meetLeader_cases dead args now with ⟨_, role, term⟩ | ⟨_, role, _⟩
    · exact .same (quiet.role.trans role) (quiet.term.trans term) quiet.leaderships
    · refine .resigns ?_
      rw [quiet.role, role]
      decide

theorem appendReply_reigns (r : Replica) (id saved nextIndex : Int) (n : Nat)
    (reply : AppendEntriesRet) (now : Int) :
    Reigns r (r.appendReply id saved nextIndex n reply now) := by
  rcases r.appendReply_cases id saved nextIndex n reply now with ⟨_, e⟩ | ⟨_, quiet⟩
  · rw [e]
    exact .resigns (by simp [RaftState.becomeFollower, RaftState.persist])
  · exact quiet.reigns

theorem advance_reigns {now : Int} {call : Call} {p : Replica × Call}
    (h : r.advance now call = some p) : Reigns r p.1 := by
  rcases advance_cases h with ⟨_, e⟩ | ⟨_, quiet⟩
  · rw [e]
    exact .resigns (by simp [RaftState.becomeFollower, RaftState.persist])
  · exact quiet.reigns

end Replica

namespace Cluster
variable {c c' : Cluster} {a : Action} {q : Int}

theorem set_reigns {r : Int} {x : Replica} (h : Replica.Reigns (c.node r) x) :
    Replica.Reigns (c.node q) ((c.set r x).node q) :=
  set_cases (fun here => here ▸ h) fun _ => .same rfl rfl rfl

theorem Transition.reigns (tr : Transition c a c') :
    Replica.Reigns (c.node q) (c'.node q) := by
  cases tr with
  | electionTick r now timeout => exact set_reigns (Replica.electionTick_reigns _ _ _)
  | voteSend r k t _ _ _ _ => exact set_reigns (.same rfl rfl rfl)
  | voteDeliver r k now t args _ _ _ =>
      exact (set_reigns (Replica.requestVote_reigns _ _ _)).congr (pushVoteReply_state _ _ _ _ _)
        (pushVoteReply_hist _ _ _ _ _)
  | voteReturn r k reply now t _ _ _ =>
      exact set_reigns ((Replica.voteReply_reigns _ _ _ _).congr rfl rfl)
  | voteFail r k t _ _ => exact set_reigns (.same rfl rfl rfl)
  | raftImpl r => exact set_reigns (Replica.keeps_raftImpl _).reigns
  | appendSend r k junk t _ _ _ _ => exact set_reigns (.same rfl rfl rfl)
  | appendDeliver r k now t args _ _ _ =>
      exact (set_reigns (Replica.appendEntries_reigns _ _ _)).congr
        (settleAppend_state _ _ _ _ _ _ _ _)
        (settleAppend_hist _ _ _ _ _ _ _ _)
  | appendUpdate p j h peer _ _ =>
      exact set_reigns ((Replica.keeps_updatePeers _ peer).reigns.congr rfl rfl)
  | appendResume p j h _ _ =>
      have quiet := (Replica.quiet_checkIndex
        { c.node p with handlers := (c.node p).handlers.eraseIdx j } h.current).trans
        (Replica.quiet_appendRest _ h.args h.rest)
      exact (set_reigns (.same quiet.role quiet.term quiet.leaderships)).congr
        (settleAppend_state _ _ _ _ _ _ _ _) (settleAppend_hist _ _ _ _ _ _ _ _)
  | appendReturn r k reply now t args _ _ _ _ =>
      exact set_reigns ((Replica.appendReply_reigns _ _ _ _ _ _ _).congr rfl rfl)
  | appendFail r k t _ _ => exact set_reigns (.same rfl rfl rfl)
  | executer r ok => exact set_reigns (Replica.quiet_executer _ ok).reigns
  | clientGet r key => exact set_reigns (Replica.quiet_clientCall _ _).reigns
  | clientPut r key value => exact set_reigns (Replica.quiet_clientCall _ _).reigns
  | addServer r args => exact set_reigns (Replica.quiet_addServer _ args).reigns
  | removeServer r serverId => exact set_reigns (Replica.quiet_removeServer _ serverId).reigns
  | callStep r j now call p _ hp => exact set_reigns ((Replica.advance_reigns hp).congr rfl rfl)

/-- A leader is in the term it was elected in. -/
theorem leads_elected {servers : List Int} {config : Int → IntMap ServerInfo}
    {h : List (Cluster × Action)} (run : Run step (launch servers config) h c) (q : Int)
    (leads : (c.node q).state.role = .leader) :
    (c.node q).electedTerm = some (c.node q).state.currentTerm := by
  refine run.always (I := fun c => ∀ q, (c.node q).state.role = .leader →
    (c.node q).electedTerm = some (c.node q).state.currentTerm) ?_ ?_ q leads
  · intro q leads
    rw [show ((launch servers config).node q).state.role = .follower from
      (Replica.initialise_fresh q (config q)).role] at leads
    cases leads
  · intro c a c' elected hs q leads
    cases (Transition.of_step hs).2.reigns (q := q) with
    | resigns role => exact absurd leads role
    | stays led term same => rw [Replica.electedTerm, same, term,
        ← elected q led, Replica.electedTerm]
    | rises s _ term won more =>
        rw [Replica.electedTerm, more, term]
        exact congrArg some won

end Cluster

namespace Replica
variable {r : Replica}

/-- The entries that the next step of the thread of `raftImpl` pushes. -/
def pushes (r : Replica) : List LogEntry :=
  r.raftImpl.state.logs.items.drop r.state.logs.items.length

/-- `savedCurrentTerm` of the iteration. -/
def iterationTerm (r : Replica) : Int :=
  match r.raftThread with
  | .updatingPeers saved _ _ | .relocking saved _ | .spawning saved => saved
  | .top | .swapped | .isLeader | .sleeping => r.state.currentTerm

/-- It stays the same up to the last entry of the iteration. -/
theorem iterationTerm_raftImpl (r : Replica) : match r.raftThread with
    | .isLeader | .updatingPeers _ _ _ | .relocking _ _ =>
        r.raftImpl.iterationTerm = r.iterationTerm
    | .top | .swapped | .spawning _ | .sleeping => True := by
  have appended (x : Replica) (saved : Int) (ops : List RaftOp) :
      (x.leaderAppend saved ops).iterationTerm = saved := by
    unfold leaderAppend
    split <;> rfl
  cases thread : r.raftThread with
  | isLeader | relocking =>
      rw [iterationTerm.eq_def r, raftImpl, thread]
      exact appended _ _ _
  | updatingPeers saved u rest =>
      rw [iterationTerm.eq_def r, raftImpl, thread]
      rfl
  | top | swapped | spawning | sleeping => exact True.intro

/-- The entries are pushed by a leader, under the term it was elected in, and all entries of
an iteration under one term. -/
def PushesAsLeader (r : Replica) : Prop :=
  ∀ e ∈ r.pushes, r.state.role = .leader ∧ r.electedTerm = some e.term ∧ e.term = r.iterationTerm

/-- `savedCurrentTerm`, where the mutex is taken again with operations left. -/
def relocked (r : Replica) : Option Int :=
  match r.raftThread with
  | .relocking saved (_ :: _) => some saved
  | _ => none

theorem leaderAppendLoop_pushes (ops : List RaftOp) (r : Replica) : ∃ es,
    (leaderAppendLoop ops r).1.state.logs.items = r.state.logs.items ++ es ∧
      (∀ e ∈ es, e.term = r.state.currentTerm) ∧ (es = [] ↔ ops = []) := by
  induction ops generalizing r with
  | nil => exact ⟨[], (List.append_nil _).symm, by simp, by simp⟩
  | cons op ops ih =>
      rw [leaderAppendLoop, applyConfig_pushLog r ⟨r.state.currentTerm, op⟩]
      cases op.command.peerUpdate r.id with
      | some u => exact ⟨[⟨r.state.currentTerm, op⟩], rfl, by simp, by simp⟩
      | none =>
          obtain ⟨es, items, terms, _⟩ := ih (r.append ⟨r.state.currentTerm, op⟩)
          refine ⟨⟨r.state.currentTerm, op⟩ :: es, ?_, ?_, by simp⟩
          · refine items.trans ?_
            change (r.state.logs.items ++ [_]) ++ es = _
            rw [List.append_assoc, List.singleton_append]
          · exact List.forall_mem_cons.mpr ⟨rfl, terms⟩

theorem leaderAppend_pushes (ops : List RaftOp) (r : Replica) (saved : Int) : ∃ es,
    (r.leaderAppend saved ops).state.logs.items = r.state.logs.items ++ es ∧
      (∀ e ∈ es, e.term = r.state.currentTerm) ∧ (es = [] ↔ ops = []) := by
  obtain ⟨es, items, rest⟩ := leaderAppendLoop_pushes ops r
  refine ⟨es, ?_, rest⟩
  unfold leaderAppend
  split
  · next he => rwa [he] at items
  · next he =>
    rw [he] at items
    exact (LogVector.persist_items _).trans items

/-- Everything that is pushed under one acquisition of the mutex has the term of the moment, and
something is pushed just when there is something to push. -/
theorem pushes_spec (r : Replica) : (∀ e ∈ r.pushes, e.term = r.state.currentTerm) ∧
    (r.pushes ≠ [] ↔ (r.raftThread = .isLeader ∧ r.raftIn ≠ []) ∨ r.relocked ≠ none) := by
  have unchanged (items : r.raftImpl.state.logs.items = r.state.logs.items) : r.pushes = [] := by
    rw [pushes, items]
    exact List.drop_length
  have pushed {es : List LogEntry}
      (items : r.raftImpl.state.logs.items = r.state.logs.items ++ es) :
      r.pushes = es := by
    rw [pushes, items, List.drop_left]
  cases thread : r.raftThread with
  | isLeader =>
      obtain ⟨es, items, terms, none⟩ := leaderAppend_pushes r.raftIn r r.state.currentTerm
      rw [pushed (by rw [raftImpl, thread]; exact items), relocked, thread]
      exact ⟨terms, by simp [none]⟩
  | relocking saved rest =>
      obtain ⟨es, items, terms, none⟩ := leaderAppend_pushes rest r saved
      rw [pushed (by rw [raftImpl, thread]; exact items), relocked, thread]
      refine ⟨terms, ?_⟩
      cases rest with
      | nil => simp [none]
      | cons op ops => simp [none]
  | updatingPeers saved u rest =>
      rw [unchanged (by rw [raftImpl, thread]; cases u <;> rfl), relocked, thread]
      simp
  | _ =>
      rw [unchanged (by rw [raftImpl, thread]), relocked, thread]
      simp

theorem pushesAsLeader_here (elected : r.state.role = .leader →
    r.electedTerm = some r.state.currentTerm) : r.PushesAsLeader ↔
      (r.raftThread = .isLeader → r.raftIn ≠ [] → r.state.role = .leader) ∧
      ∀ saved ∈ r.relocked, r.state.role = .leader ∧ r.state.currentTerm = saved := by
  obtain ⟨terms, some⟩ := r.pushes_spec
  have again {saved : Int} (h : saved ∈ r.relocked) : r.iterationTerm = saved := by
    unfold relocked at h
    split at h
    · next thread =>
      rw [iterationTerm, thread]
      exact Option.some.inj h
    · cases h
  constructor
  · intro asLeader
    refine ⟨fun thread ops => ?_, fun saved here => ?_⟩
    · obtain ⟨e, he⟩ := List.exists_mem_of_ne_nil _ (some.mpr (Or.inl ⟨thread, ops⟩))
      exact (asLeader e he).1
    · have relocks : r.relocked ≠ none := by
        rw [show r.relocked = Option.some saved from here]
        nofun
      obtain ⟨e, he⟩ := List.exists_mem_of_ne_nil _ (some.mpr (Or.inr relocks))
      obtain ⟨leads, _, same⟩ := asLeader e he
      exact ⟨leads, (terms e he).symm.trans (same.trans (again here))⟩
  · rintro ⟨first, later⟩ e he
    have term := terms e he
    rcases some.mp (List.ne_nil_of_mem he) with ⟨thread, ops⟩ | relocks
    · have leads := first thread ops
      refine ⟨leads, (elected leads).trans (congrArg Option.some term.symm), ?_⟩
      rw [iterationTerm, thread]
      exact term
    · obtain ⟨saved, here⟩ := Option.ne_none_iff_exists'.mp relocks
      obtain ⟨leads, same⟩ := later saved here
      exact ⟨leads, (elected leads).trans (congrArg Option.some term.symm),
        term.trans (same.trans (again here).symm)⟩

end Replica

namespace Cluster
variable {c c' : Cluster} {a : Action} {q : Int}

/-- A replica that takes the mutex again with operations left to append is still leader of the
term in which it began. -/
def RelocksAsLeader : Cluster → Action → Prop :=
  AtRaftImpl fun r => ∀ saved ∈ r.relocked, r.state.role = .leader ∧ r.state.currentTerm = saved

instance (c : Cluster) (a : Action) : Decidable (c.RelocksAsLeader a) :=
  inferInstanceAs (Decidable (AtRaftImpl _ c a))

/-- What is pushed is as it should be just when the replica is still the leader that the check of
the role has found, each time the mutex is taken. -/
theorem pushesAsLeader_iff {servers : List Int} {config : Int → IntMap ServerInfo}
    {h : List (Cluster × Action)} (run : Run step (launch servers config) h c) :
    Meets (AtRaftImpl Replica.PushesAsLeader) h ↔
      Meets (fun c a => c.LeaderAppendsOps a ∧ c.RelocksAsLeader a) h := by
  refine forall_congr' fun p => forall_congr' fun hp => ?_
  obtain ⟨h', _, before, _, _⟩ := run.before hp
  cases p.2 with
  | raftImpl r => exact Replica.pushesAsLeader_here (leads_elected before r)
  | _ => simp [AtRaftImpl, LeaderAppendsOps, RelocksAsLeader]

theorem pushesAsLeader_iff_answeredPut :
    Meets (AtRaftImpl Replica.PushesAsLeader)
      (outcome step (launch [1, 2, 3] fun _ => threeServers) (plainElection ++
        [.clientPut 1 5 7, .callStep 1 0 0, .callStep 1 0 0, .raftImpl 1, .raftImpl 1,
          .raftImpl 1])).1 :=
  (pushesAsLeader_iff (outcome_run _ _ _)).mpr (by decide +kernel)

/-- Server 1 has checked that it is leader of term 1 when server 3, which has voted for it, asks
for its vote in term 2. -/
def deposedPut : List Action :=
  plainElection ++
    [.clientPut 1 5 7, .callStep 1 0 0, .callStep 1 0 0, .raftImpl 1, .raftImpl 1,
      .electionTick 3 50 5, .voteSend 3 1, .voteDeliver 3 1 51, .raftImpl 1]

/-- Server 1 appends the operation as a follower, under the term of server 3. -/
theorem not_pushesAsLeader : ¬ ∀ (servers : List Int) (config : Int → IntMap ServerInfo)
    (h : List (Cluster × Action)) (c : Cluster),
    Run step (launch servers config) h c → Meets (AtRaftImpl Replica.PushesAsLeader) h := by
  intro always
  have meets := (pushesAsLeader_iff (outcome_run _ _ _)).mp
    (always _ _ _ _ (outcome_run step (launch [1, 2, 3] fun _ => threeServers) deposedPut))
  revert meets
  decide +kernel

end Cluster
end OhMyDb
