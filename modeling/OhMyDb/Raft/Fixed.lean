import OhMyDb.Raft.Counts

/-!
Runs with a fixed membership. When no server is added or removed, only GETs and
PUTs are ever queued, logged or sent, no call is suspended in the middle of an
append loop, and the loops have closed forms.
-/

namespace OhMyDb
open Execution

/-- Calls that do not change the membership. -/
def Call.isClient : Call → Bool
  | .submitting op _ | .queueing op _ | .refused op _ | .waiting op _ | .returned op _ _ =>
      op.command.isClient
  | _ => false

/-- The requests that would change the membership. -/
def Action.isMembership : Action → Bool
  | .addServer _ _ | .removeServer _ _ => true
  | _ => false

/-- The entry `AppendEntries` pushes to its log. -/
def AppendLogEntry.entry (e : AppendLogEntry) : LogEntry :=
  { term := e.term, op := e.op }

/-- Events that only note what has become of an operation, a promise or an index. -/
def Event.isNote : Event → Bool
  | .executed _ _ | .tookPromise _ | .indexMismatch _ _ => true
  | _ => false

namespace Replica
variable {r r' : Replica} {config : IntMap ServerInfo}

structure Static (config : IntMap ServerInfo) (r : Replica) : Prop where
  members : ∀ p ∈ config, p ∈ r.state.clusterConfig
  peers : ∀ p, p ∈ r.peers ↔ p ∈ config ∧ p ≠ r.id
  dispatchOut : ∀ op ∈ r.dispatchOut, op.command.isClient = true
  raftIn : ∀ op ∈ r.raftIn, op.command.isClient = true
  logs : ∀ e ∈ r.state.logs.items, e.op.command.isClient = true
  notUpdating : ∀ saved u rest, r.raftThread ≠ .updatingPeers saved u rest
  notRelocking : ∀ saved rest, r.raftThread ≠ .relocking saved rest
  args : ∀ t ∈ r.appendThreads, ∀ a ∈ t.args, ∀ e ∈ a.entries, e.op.command.isClient = true
  handlers : r.handlers = []
  calls : ∀ call ∈ r.calls, call.isClient = true

theorem applyConfig_client {op : Command} (h : op.isClient = true) (r : Replica) :
    r.applyConfig op = (r, none) := by
  cases op with
  | get _ | put _ _ => rfl
  | addServer _ | removeServer _ => cases h

/-- Entries go to the end of the log. -/
def appendItems (r : Replica) (es : List LogEntry) : Replica :=
  { r with state := { r.state with
      logs := { r.state.logs with items := r.state.logs.items ++ es } } }

@[simp] theorem appendItems_items (r : Replica) (es : List LogEntry) :
    (r.appendItems es).state.logs.items = r.state.logs.items ++ es := rfl

theorem leaderAppendLoop_client {ops : List RaftOp} (r : Replica)
    (h : ∀ op ∈ ops, op.command.isClient = true) :
    leaderAppendLoop ops r =
      (r.appendItems (ops.map fun op => ⟨r.state.currentTerm, op⟩), none) := by
  induction ops generalizing r with
  | nil => simp [leaderAppendLoop, appendItems]
  | cons op ops ih =>
      rw [leaderAppendLoop, applyConfig_client (h op List.mem_cons_self)]
      simp only
      rw [ih _ fun op' h' => h op' (List.mem_cons_of_mem _ h')]
      simp [appendItems, pushLog]

theorem leaderAppend_client {ops : List RaftOp} (r : Replica) (saved : Int)
    (h : ∀ op ∈ ops, op.command.isClient = true) :
    r.leaderAppend saved ops =
      { (r.appendItems (ops.map fun op => ⟨r.state.currentTerm, op⟩)).persistLogs with
        raftThread := .spawning saved } := by
  rw [leaderAppend, leaderAppendLoop_client r h]

theorem appendLoop_client (es : List AppendLogEntry) (r : Replica)
    (h : ∀ e ∈ es, e.op.command.isClient = true) :
    ∃ ms, (∀ e ∈ ms, e.isNote = true) ∧ appendLoop es r =
      ({ r.appendItems (es.map AppendLogEntry.entry) with hist := ms ++ r.hist }, none) := by
  induction es generalizing r with
  | nil => exact ⟨[], by simp, by simp [appendLoop, appendItems]⟩
  | cons e es ih =>
      obtain ⟨ms, hm, eq⟩ := ih ((r.pushLog e.entry).checkIndex e)
        fun e' h' => h e' (List.mem_cons_of_mem _ h')
      obtain ⟨ns, hn, check⟩ : ∃ ns, (∀ x ∈ ns, x.isNote = true) ∧
          (r.pushLog e.entry).checkIndex e =
            { r.pushLog e.entry with hist := ns ++ r.hist } := by
        unfold checkIndex
        split
        · exact ⟨[.indexMismatch (r.pushLog e.entry).state.logs.size e.index],
            by simp [Event.isNote], rfl⟩
        · exact ⟨[], by simp, rfl⟩
      refine ⟨ms ++ ns, ?_, ?_⟩
      · intro x hx
        rcases List.mem_append.mp hx with hx | hx
        · exact hm x hx
        · exact hn x hx
      · rw [appendLoop, applyConfig_client (h e List.mem_cons_self)]
        simp only
        refine Eq.trans eq ?_
        rw [check]
        simp [appendItems, pushLog]

/-- The log after `AppendEntries` has accepted the entries. -/
def mergedItems (logs : LogVector) (args : AppendEntriesParams) : List LogEntry :=
  if newEntriesIndex logs args < args.entries.length then
    logs.items.take (logInsertIndex logs args) ++
      (args.entries.drop (newEntriesIndex logs args)).map AppendLogEntry.entry
  else logs.items

/-- What the merge changes. -/
structure MergedTo (r : Replica) (items : List LogEntry) (x : Replica) : Prop where
  items : x.state.logs.items = items
  rest : ∃ logs ps ms, (∀ e ∈ ms, e.isNote = true) ∧
    x = { r with
      state := { r.state with logs := logs }, promises := ps, hist := ms ++ r.hist }

theorem mergeEntries_client (r : Replica) {args : AppendEntriesParams}
    (h : ∀ e ∈ args.entries, e.op.command.isClient = true) :
    ∃ x, MergedTo r (mergedItems r.state.logs args) x ∧
      r.mergeEntries args = (x.followCommit args.leaderCommit,
        .replied { term := r.state.currentTerm, success := true }) := by
  unfold mergeEntries mergedItems
  split
  · next behind =>
    obtain ⟨ms, hm, eq⟩ := appendLoop_client
      (args.entries.drop (newEntriesIndex r.state.logs args))
      (r.truncate (logInsertIndex r.state.logs args))
      fun e he => h e (List.mem_of_mem_drop he)
    generalize hn : logInsertIndex r.state.logs args = n at eq ⊢
    generalize hes : args.entries.drop (newEntriesIndex r.state.logs args) = es at eq ⊢
    let y : Replica := { (r.truncate n).appendItems (es.map AppendLogEntry.entry) with
      hist := ms ++ (r.truncate n).hist }
    have rest : (r.truncate n).appendRest args es = (y.persistLogs.followCommit args.leaderCommit,
        .replied { term := r.state.currentTerm, success := true }) := by
      rw [appendRest, eq]
      simp only
      rw [(quiet_followCommit _ _).term]
      rfl
    refine ⟨y.persistLogs, ⟨by simp [y, persistLogs, truncate], y.persistLogs.state.logs,
      y.promises, ms ++ ((r.state.logs.items.drop n).filterMap
        fun e => e.op.promiseHandle.map Event.tookPromise).reverse, ?_, ?_⟩, rest⟩
    · intro e he
      rcases List.mem_append.mp he with he | he
      · exact hm e he
      · simp only [List.mem_reverse, List.mem_filterMap, Option.map_eq_some_iff] at he
        obtain ⟨_, _, _, _, rfl⟩ := he
        rfl
    · simp only [y, persistLogs, appendItems, truncate, List.append_assoc]
  · refine ⟨r, ⟨rfl, r.state.logs, r.promises, [], by simp, by simp⟩, ?_⟩
    simp only
    rw [(quiet_followCommit _ _).term]

/-! Explicit forms of what happens under the mutex. -/

/-- The fields that step-downs and votes write. -/
def move (s : RaftState) (term : Int) (role : RaftRole) (votedFor resetEvent leaderId : Int)
    (pStore : PersistentStore) : RaftState :=
  { s with
    currentTerm := term
    role := role
    votedFor := votedFor
    electionResetEvent := resetEvent
    lastKnownLeaderId := leaderId
    pStore := pStore }

theorem requestVote_eq (r : Replica) (args : RequestVoteParams) (now : Int) :
    ∃ role votedFor resetEvent pStore hist,
      (r.requestVote args now).1 = { r with
        state := move r.state (r.requestVote args now).1.state.currentTerm role votedFor
          resetEvent r.state.lastKnownLeaderId pStore
        hist := hist } := by
  simp only [requestVote, observeTerm]
  split_ifs <;> exact ⟨_, _, _, _, _, rfl⟩

theorem meetLeader_eq (r : Replica) (args : AppendEntriesParams) (now : Int) :
    ∃ votedFor resetEvent leaderId pStore,
      r.meetLeader args now = move r.state (r.meetLeader args now).currentTerm
        (r.meetLeader args now).role votedFor resetEvent leaderId pStore := by
  simp only [meetLeader, observeLeader]
  split_ifs <;> exact ⟨_, _, _, _, rfl⟩

/-- A call of `AppendEntries` when only GETs and PUTs are around. -/
inductive Served (r : Replica) (args : AppendEntriesParams) (now : Int) :
    Replica → AppendEntriesRet → Prop where
  | dead (resetEvent : Int) : r.state.role = .dead →
      Served r args now { r with state := { r.state with electionResetEvent := resetEvent } }
        { term := 0, success := false }
  | refused : r.state.role ≠ .dead →
      ¬ (args.term = (r.meetLeader args now).currentTerm ∧
        prevMatches r.state.logs args) →
      Served r args now { r with state := r.meetLeader args now }
        { term := (r.meetLeader args now).currentTerm, success := false }
  | accepted (x : Replica) : r.state.role ≠ .dead →
      args.term = (r.meetLeader args now).currentTerm → prevMatches r.state.logs args →
      MergedTo { r with state := r.meetLeader args now } (mergedItems r.state.logs args) x →
      Served r args now (x.followCommit args.leaderCommit) { term := args.term, success := true }

theorem appendEntries_client (r : Replica) {args : AppendEntriesParams} (now : Int)
    (h : ∀ e ∈ args.entries, e.op.command.isClient = true) :
    ∃ x ret, r.appendEntries args now = (x, .replied ret) ∧ Served r args now x ret := by
  by_cases alive : r.state.role = .dead
  · exact ⟨_, _, if_pos alive, .dead _ alive⟩
  · have met : r.observeLeader args now = r.meetLeader args now := by
      rw [meetLeader, if_neg alive]
    obtain ⟨_, _, _, _, eq⟩ := r.meetLeader_eq args now
    have logs : (r.meetLeader args now).logs = r.state.logs := by rw [eq]; rfl
    simp only [appendEntries, if_neg alive, met, logs]
    split
    · next ok =>
      obtain ⟨x, merged, eq⟩ := mergeEntries_client { r with state := r.meetLeader args now } h
      refine ⟨_, _, eq, ?_⟩
      rw [← ok.1]
      exact .accepted x alive ok.1 ok.2 (by rwa [logs] at merged)
    · next no => exact ⟨_, _, rfl, .refused alive no⟩

theorem followCommit_eq (r : Replica) (leaderCommit : Int) :
    ∃ commitIndex lastApplied raftOut hist, r.followCommit leaderCommit = { r with
      state := { r.state with commitIndex := commitIndex, lastApplied := lastApplied }
      raftOut := raftOut
      hist := hist } := by
  unfold followCommit
  split
  · exact ⟨_, _, _, _, rfl⟩
  · exact ⟨_, _, _, _, rfl⟩

theorem appendReply_eq (r : Replica) (id saved nextIndex : Int) (n : Nat)
    (reply : AppendEntriesRet) (now : Int) :
    ∃ s raftOut hist, r.appendReply id saved nextIndex n reply now =
        { r with state := s, raftOut := raftOut, hist := hist } ∧
      s.logs = r.state.logs ∧ s.clusterConfig = r.state.clusterConfig := by
  refine appendReply_elim r id saved nextIndex n reply now ?down ?idle ?refused ?matched ?committed
  case down | idle | refused | matched =>
    intros
    exact ⟨_, _, _, rfl, rfl, rfl⟩
  case committed =>
    rintro _ _ _ m i _ _ _ _ rfl
    exact ⟨_, _, _, rfl, rfl, rfl⟩

theorem executer_eq (r : Replica) (ok : Bool) :
    ∃ raftOut execIn db promises ms, (∀ e ∈ ms, e.isNote = true) ∧ r.executer ok = { r with
      raftOut := raftOut, execIn := execIn, db := db, promises := promises,
      hist := ms ++ r.hist } := by
  unfold executer
  split
  · exact ⟨_, _, _, _, [], by simp, rfl⟩
  · next op rest _ =>
    refine ⟨r.raftOut, rest, (op.run r.db ok).1, op.resolve r.promises (op.run r.db ok).2,
      op.promiseHandle.toList.map .tookPromise ++ [.executed op (op.run r.db ok).2],
      by simp [or_imp, forall_and, Event.isNote], ?_⟩
    simp only [List.append_assoc, List.singleton_append]

/-- A step of a GET or PUT touches no more than the queue of new operations, the
promises and the configuration it looks an address up in. -/
theorem advance_eq {now : Int} {call : Call} {p : Replica × Call} (client : call.isClient = true)
    (h : r.advance now call = some p) :
    ∃ dispatchOut promises clusterConfig ms, (∀ e ∈ ms, e.isNote = true) ∧ p.1 = { r with
      dispatchOut := dispatchOut, promises := promises,
      state := { r.state with clusterConfig := clusterConfig }, hist := ms ++ r.hist } := by
  cases call with
  | submitting op it =>
      simp only [Replica.advance] at h
      split at h <;> cases h <;> exact ⟨_, _, _, [], by simp, rfl⟩
  | queueing op it =>
      cases h
      exact ⟨_, _, _, [], by simp, rfl⟩
  | refused op it =>
      cases h
      exact ⟨_, _, _, [.tookPromise it], by simp [Event.isNote], rfl⟩
  | waiting op it =>
      simp only [Replica.advance] at h
      split at h
      · obtain ⟨_, _, rfl⟩ := Option.map_eq_some_iff.mp h
        exact ⟨_, _, _, [], by simp, rfl⟩
      · cases h
  | returned op it ret => cases h
  | _ => cases client

/-! Preservation. -/

theorem mem_subscript {V : Type} {m : IntMap V} {k p : Int} {dflt : V} (h : p ∈ m) :
    p ∈ (m.subscript k dflt).2 := by
  unfold IntMap.subscript
  split
  · exact h
  · exact (AList.mem_insert m).mpr (Or.inr h)

theorem Static.withState (st : Static config r) {s : RaftState}
    (logs : s.logs.items = r.state.logs.items)
    (members : ∀ p ∈ r.state.clusterConfig, p ∈ s.clusterConfig) :
    Static config { r with state := s } :=
  { st with
    members := fun p hp => members p (st.members p hp)
    logs := by rw [logs]; exact st.logs }

theorem mergedItems_client {logs : LogVector} {args : AppendEntriesParams}
    (old : ∀ e ∈ logs.items, e.op.command.isClient = true)
    (new : ∀ e ∈ args.entries, e.op.command.isClient = true) :
    ∀ e ∈ mergedItems logs args, e.op.command.isClient = true := by
  intro e he
  unfold mergedItems at he
  split at he
  · rcases List.mem_append.mp he with he | he
    · exact old e (List.mem_of_mem_take he)
    · obtain ⟨x, hx, rfl⟩ := List.mem_map.mp he
      exact new x (List.mem_of_mem_drop hx)
  · exact old e he

theorem Served.static {args : AppendEntriesParams} {now : Int} {ret : AppendEntriesRet}
    (sv : Served r args now r' ret) (st : Static config r)
    (h : ∀ e ∈ args.entries, e.op.command.isClient = true) : Static config r' := by
  obtain ⟨_, _, _, _, eq⟩ := r.meetLeader_eq args now
  have met : Static config { r with state := r.meetLeader args now } :=
    st.withState (by rw [eq]; rfl) (by rw [eq]; exact fun _ hp => hp)
  cases sv with
  | dead resetEvent _ => exact st.withState rfl fun _ hp => hp
  | refused _ _ => exact met
  | accepted x _ _ _ merged =>
      obtain ⟨items, logs, ps, ms, _, rfl⟩ := merged
      obtain ⟨_, _, _, _, eq⟩ := followCommit_eq { r with
        state := { r.meetLeader args now with logs := logs }
        promises := ps, hist := ms ++ r.hist } args.leaderCommit
      rw [eq]
      exact { met with
        logs := by
          change ∀ e ∈ logs.items, _
          rw [show logs.items = _ from items]
          exact mergedItems_client st.logs h }

theorem entriesFrom_client {logs : LogVector} {nextIndex : Int}
    (h : ∀ e ∈ logs.items, e.op.command.isClient = true) :
    ∀ e ∈ entriesFrom logs nextIndex, e.op.command.isClient = true := by
  unfold entriesFrom
  split
  · exact fun _ h => nomatch h
  · intro e he
    obtain ⟨i, hi, rfl⟩ := List.mem_mapIdx.mp he
    exact h _ (List.mem_of_mem_drop (List.getElem_mem hi))

theorem Static.raftImpl (st : Static config r) : Static config r.raftImpl := by
  unfold Replica.raftImpl
  cases hp : r.raftThread with
  | top => exact { st with
      dispatchOut := st.raftIn
      raftIn := st.dispatchOut
      notUpdating := fun _ _ _ h => nomatch h
      notRelocking := fun _ _ h => nomatch h }
  | swapped =>
      have stays : (if r.state.role = .leader then RaftThread.isLeader else .sleeping) =
          .isLeader ∨ (if r.state.role = .leader then RaftThread.isLeader else .sleeping) =
          .sleeping := by
        split <;> simp
      exact { st with
        notUpdating := by rcases stays with h | h <;> simp [h]
        notRelocking := by rcases stays with h | h <;> simp [h] }
  | isLeader =>
      simp only
      rw [leaderAppend_client r _ st.raftIn]
      exact { st with
        logs := by
          intro e he
          simp only [persistLogs, LogVector.persist_items, appendItems_items] at he
          rcases List.mem_append.mp he with he | he
          · exact st.logs e he
          · obtain ⟨op, hop, rfl⟩ := List.mem_map.mp he
            exact st.raftIn op hop
        notUpdating := fun _ _ _ h => nomatch h
        notRelocking := fun _ _ h => nomatch h }
  | updatingPeers saved update rest => exact absurd hp (st.notUpdating _ _ _)
  | relocking saved rest => exact absurd hp (st.notRelocking _ _)
  | spawning saved => exact { st with
      args := by
        intro t ht
        rcases List.mem_append.mp ht with ht | ht
        · exact st.args t ht
        · obtain ⟨p, _, rfl⟩ := List.mem_map.mp ht
          exact fun _ h => nomatch h
      notUpdating := fun _ _ _ h => nomatch h
      notRelocking := fun _ _ h => nomatch h }
  | sleeping => exact { st with
      raftIn := fun _ h => nomatch h
      notUpdating := fun _ _ _ h => nomatch h
      notRelocking := fun _ _ h => nomatch h }

/-- A step of a GET or PUT. -/
theorem Static.advance (st : Static config r) {now : Int} {call : Call} {p : Replica × Call}
    (client : call.isClient = true) (h : r.advance now call = some p) :
    Static config p.1 ∧ p.2.isClient = true := by
  cases call with
  | submitting op it =>
      simp only [Replica.advance] at h
      split at h <;> cases h <;> exact ⟨st, client⟩
  | queueing op it =>
      cases h
      refine ⟨{ st with dispatchOut := ?_ }, client⟩
      intro op' h'
      rcases List.mem_append.mp h' with h' | h'
      · exact st.dispatchOut op' h'
      · exact List.mem_singleton.mp h' ▸ client
  | refused op it =>
      cases h
      have st' : Static config { r with state := r.state.getLastKnownLeaderDBAddr.2 } :=
        st.withState rfl fun _ hp => mem_subscript hp
      exact ⟨{ st' with }, client⟩
  | waiting op it =>
      simp only [Replica.advance] at h
      split at h
      · obtain ⟨_, _, rfl⟩ := Option.map_eq_some_iff.mp h
        exact ⟨st, client⟩
      · cases h
  | returned op it ret => cases h
  | _ => cases client

end Replica

namespace Cluster
variable {config : IntMap ServerInfo} {c c' : Cluster}

def Static (config : IntMap ServerInfo) (c : Cluster) : Prop :=
  ∀ r, (c.node r).Static config

theorem Static.set (st : c.Static config) {r : Int} {x : Replica} (h : x.Static config) :
    (c.set r x).Static config :=
  fun q => set_cases (fun _ => h) fun _ => st q

theorem Static.pushAppendReply (st : c.Static config) {r : Int} {k : Nat}
    {ret : AppendEntriesRet} : (c.pushAppendReply r k ret).Static config := by
  refine st.set { st r with args := ?_ }
  intro t ht
  rcases List.mem_or_eq_of_mem_modify ht with ht | ⟨u, hu, rfl⟩
  · exact (st r).args t ht
  · exact (st r).args u (List.mem_of_getElem? hu)

theorem Static.step {a : Action} (st : c.Static config) (tr : Transition c a c')
    (fixed : a.isMembership = false) : c'.Static config := by
  cases tr with
  | electionTick r now timeout =>
      refine st.set ?_
      unfold Replica.electionTick
      split
      · exact { st r with }
      · exact st r
  | voteSend r k t _ _ _ _ => exact st.set { st r with }
  | voteDeliver r k now t args _ _ _ =>
      obtain ⟨_, _, _, _, _, eq⟩ := (c.node t.peer).requestVote_eq args now
      have served : (c.set t.peer ((c.node t.peer).requestVote args now).1).Static config := by
        rw [eq]
        exact st.set { st t.peer with }
      exact served.set { served r with }
  | voteReturn r k reply now t _ _ _ =>
      refine st.set ?_
      rcases (c.node r).voteReply_cases t.savedCurrentTerm reply now with
        ⟨eq, _⟩ | ⟨_, _, eq⟩ | ⟨_, _, ⟨_, eq⟩ | ⟨_, s, hs, eq⟩⟩ <;> rw [eq]
      · exact { st r with }
      · exact { st r with }
      · exact { st r with }
      · rw [hs]
        exact { st r with }
  | voteFail r k t _ _ => exact st.set { st r with }
  | raftImpl r => exact st.set (st r).raftImpl
  | appendSend r k junk t _ _ _ _ =>
      refine st.set { st r with args := ?_ }
      intro u hu
      rcases List.mem_or_eq_of_mem_modify hu with hu | ⟨u, hu, rfl⟩
      · exact (st r).args u hu
      · rintro _ ⟨⟩
        exact Replica.entriesFrom_client (st r).logs
  | appendDeliver r k now t args ht ha _ =>
      have client := (st r).args t (List.mem_of_getElem? ht) args ha
      obtain ⟨x, ret, eq, sv⟩ := (c.node t.peer).appendEntries_client now client
      rw [eq]
      exact (st.set (sv.static (st t.peer) client)).pushAppendReply
  | appendUpdate p j h peer hj _ =>
      rw [(st p).handlers] at hj
      exact nomatch hj
  | appendResume p j h hj _ =>
      rw [(st p).handlers] at hj
      exact nomatch hj
  | appendReturn r k reply now t args _ _ _ _ =>
      obtain ⟨s, _, _, eq, logs, members⟩ := (c.node r).appendReply_eq t.peer t.savedCurrentTerm
        t.nextIndex args.entries.length reply now
      rw [eq]
      have st' : ({ c.node r with state := s } : Replica).Static config :=
        (st r).withState (by rw [logs]) (by rw [members]; exact fun _ hp => hp)
      refine st.set { st' with args := ?_ }
      intro u hu
      rcases List.mem_or_eq_of_mem_modify hu with hu | ⟨v, hv, rfl⟩
      · exact (st r).args u hu
      · exact (st r).args v (List.mem_of_getElem? hv)
  | appendFail r k t _ _ =>
      refine st.set { st r with args := ?_ }
      intro u hu
      rcases List.mem_or_eq_of_mem_modify hu with hu | ⟨v, hv, rfl⟩
      · exact (st r).args u hu
      · exact (st r).args v (List.mem_of_getElem? hv)
  | executer r ok =>
      obtain ⟨_, _, _, _, _, _, eq⟩ := (c.node r).executer_eq ok
      rw [eq]
      exact st.set { st r with }
  | clientGet r key =>
      refine st.set { st r with calls := ?_ }
      exact fun call h => (List.mem_append.mp h).elim ((st r).calls call)
        fun h => List.mem_singleton.mp h ▸ rfl
  | clientPut r key value =>
      refine st.set { st r with calls := ?_ }
      exact fun call h => (List.mem_append.mp h).elim ((st r).calls call)
        fun h => List.mem_singleton.mp h ▸ rfl
  | addServer r args => cases fixed
  | removeServer r serverId => cases fixed
  | callStep r j now call p hc hp =>
      obtain ⟨st', client⟩ := (st r).advance ((st r).calls call (List.mem_of_getElem? hc)) hp
      refine st.set { st' with calls := ?_ }
      intro x hx
      rcases List.mem_or_eq_of_mem_set hx with hx | rfl
      · exact st'.calls x hx
      · exact client

theorem Static.fixed (config : IntMap ServerInfo) : (fixed config).Static config := by
  intro r
  have f := Replica.initialise_fresh r config
  have conf := Replica.initialise_configured r config
  change (Replica.initialise r config).Static config
  constructor
  case members => rw [conf.clusterConfig]; exact fun _ hp => hp
  case peers => exact conf.peers
  case dispatchOut => rw [f.dispatchOut]; exact fun _ h => nomatch h
  case raftIn => rw [f.raftIn]; exact fun _ h => nomatch h
  case logs => rw [f.logs]; exact fun _ h => nomatch h
  case notUpdating => rw [f.raftThread]; exact fun _ _ _ h => nomatch h
  case notRelocking => rw [f.raftThread]; exact fun _ _ h => nomatch h
  case args => rw [f.appendThreads]; exact fun _ h => nomatch h
  case handlers => exact f.handlers
  case calls => rw [f.calls]; exact fun _ h => nomatch h

/-- A run of a cluster all of whose members are launched with one configuration,
in which no server is added or removed. -/
structure FixedRun (config : IntMap ServerInfo) (h : List (Cluster × Action)) (c : Cluster) :
    Prop where
  run : Run Cluster.step (fixed config) h c
  membership : Meets (fun _ a => a.isMembership = false) h

theorem FixedRun.static {h : List (Cluster × Action)} (f : FixedRun config h c) :
    c.Static config :=
  f.run.stateInvariant f.membership (.fixed config)
    fun _ _ _ st ok hs => st.step (Transition.of_step hs).2 ok

theorem Transition.servers {a : Action} (tr : Transition c a c') : c'.servers = c.servers := by
  cases tr with
  | appendDeliver r k now t args _ _ _ =>
      cases ((c.node t.peer).appendEntries args now).2 <;> rfl
  | appendResume p j h _ _ =>
      cases (({ c.node p with handlers := (c.node p).handlers.eraseIdx j }.checkIndex
        h.current).appendRest h.args h.rest).2 <;> rfl
  | _ => rfl

theorem FixedRun.servers {h : List (Cluster × Action)} (f : FixedRun config h c) :
    c.servers = config.keys :=
  f.run.always (I := fun c => c.servers = config.keys) rfl fun _ _ _ eq hs =>
    (Transition.of_step hs).2.servers.trans eq

end Cluster
end OhMyDb
