import OhMyDb.Lib.Modify
import OhMyDb.Raft.Transition

/-!
What the log side of a replica leaves alone: appending, merging, committing,
executing and serving calls do not touch what elections are decided by.
-/

namespace OhMyDb

def Event.isElection : Event → Bool
  | .voted _ _ | .becameLeader _ => true
  | _ => false

namespace Replica
variable {r r' r'' : Replica}

/-- The candidates the replica has voted for, with the terms. -/
def votes (r : Replica) : List (Int × Int) :=
  r.hist.filterMap fun
    | .voted candidate term => some (candidate, term)
    | _ => none

theorem mem_votes {candidate term : Int} :
    (candidate, term) ∈ r.votes ↔ .voted candidate term ∈ r.hist := by
  refine List.mem_filterMap_of_eq_iff (g := fun p : Int × Int => Event.voted p.1 p.2) fun e p => ?_
  cases e <;> simp [Prod.ext_iff]

/-- The states the replica has become leader in. -/
def leaderships (r : Replica) : List RaftState :=
  r.hist.filterMap fun
    | .becameLeader s => some s
    | _ => none

theorem mem_leaderships {s : RaftState} :
    s ∈ r.leaderships ↔ .becameLeader s ∈ r.hist := by
  refine List.mem_filterMap_of_eq_iff fun e s => ?_
  cases e <;> simp

/-- Everything elections depend on is as before. -/
structure Keeps (r r' : Replica) : Prop where
  id : r'.id = r.id
  term : r'.state.currentTerm = r.state.currentTerm
  role : r'.state.role = r.state.role
  votesReceived : r'.state.votesReceived = r.state.votesReceived
  voteThreads : r'.voteThreads = r.voteThreads
  hist : ∀ e, e.isElection = true → (e ∈ r'.hist ↔ e ∈ r.hist)
  grows : r.hist <:+ r'.hist
  elections : r'.hist.filter Event.isElection = r.hist.filter Event.isElection

/-- Besides, the peers, the places where they are about to change and the sender threads are as
before. -/
structure Quiet (r r' : Replica) : Prop extends Keeps r r' where
  peers : r'.peers = r.peers
  raftThread : r'.raftThread = r.raftThread
  handlers : r'.handlers = r.handlers
  appendThreads : r'.appendThreads = r.appendThreads

theorem Keeps.trans (h : Keeps r r') (h' : Keeps r' r'') : Keeps r r'' where
  id := h'.id.trans h.id
  term := h'.term.trans h.term
  role := h'.role.trans h.role
  votesReceived := h'.votesReceived.trans h.votesReceived
  voteThreads := h'.voteThreads.trans h.voteThreads
  hist e he := (h'.hist e he).trans (h.hist e he)
  grows := h.grows.trans h'.grows
  elections := h'.elections.trans h.elections

/-- Nothing is recorded. -/
theorem Quiet.silent (id : r'.id = r.id) (term : r'.state.currentTerm = r.state.currentTerm)
    (role : r'.state.role = r.state.role)
    (votesReceived : r'.state.votesReceived = r.state.votesReceived)
    (voteThreads : r'.voteThreads = r.voteThreads) (hist : r'.hist = r.hist)
    (peers : r'.peers = r.peers) (raftThread : r'.raftThread = r.raftThread)
    (handlers : r'.handlers = r.handlers) (appendThreads : r'.appendThreads = r.appendThreads) :
    Quiet r r' :=
  ⟨⟨id, term, role, votesReceived, voteThreads, fun _ _ => by rw [hist], hist ▸ List.suffix_refl _,
      by rw [hist]⟩, peers, raftThread, handlers, appendThreads⟩

theorem Quiet.refl (r : Replica) : Quiet r r :=
  .silent rfl rfl rfl rfl rfl rfl rfl rfl rfl rfl

theorem Quiet.trans (h : Quiet r r') (h' : Quiet r' r'') : Quiet r r'' where
  toKeeps := h.toKeeps.trans h'.toKeeps
  peers := h'.peers.trans h.peers
  raftThread := h'.raftThread.trans h.raftThread
  handlers := h'.handlers.trans h.handlers
  appendThreads := h'.appendThreads.trans h.appendThreads

theorem Keeps.voted (h : Keeps r r') {c t : Int} :
    .voted c t ∈ r'.hist ↔ .voted c t ∈ r.hist :=
  h.hist _ rfl

theorem Keeps.becameLeader (h : Keeps r r') {s : RaftState} :
    .becameLeader s ∈ r'.hist ↔ .becameLeader s ∈ r.hist :=
  h.hist _ rfl

/-- Events that are not about elections may be recorded. -/
theorem Quiet.record (es : List Event) (other : ∀ e ∈ es, e.isElection = false)
    (hist : r'.hist = es ++ r.hist) (h : Quiet r { r' with hist := r.hist }) : Quiet r r' :=
  { h with
    hist := by
      intro e he
      rw [hist, List.mem_append, or_iff_right]
      intro mem
      rw [other e mem] at he
      cases he
    grows := ⟨es, hist.symm⟩
    elections := by
      rw [hist, List.filter_append, List.filter_eq_nil_iff.mpr fun e he => by simp [other e he],
        List.nil_append] }

theorem keeps_updatePeers (r : Replica) (u : PeerUpdate) : Keeps r (r.updatePeers u) := by
  cases u <;> exact ⟨rfl, rfl, rfl, rfl, rfl, fun _ _ => Iff.rfl, List.suffix_refl _, rfl⟩

theorem quiet_applyConfig (r : Replica) (op : Command) : Quiet r (r.applyConfig op).1 := by
  cases op <;> exact .silent rfl rfl rfl rfl rfl rfl rfl rfl rfl rfl

theorem quiet_pushLog (r : Replica) (e : LogEntry) : Quiet r (r.pushLog e) :=
  .silent rfl rfl rfl rfl rfl rfl rfl rfl rfl rfl

theorem quiet_persistLogs (r : Replica) : Quiet r r.persistLogs :=
  .silent rfl rfl rfl rfl rfl rfl rfl rfl rfl rfl

theorem quiet_queueCommitted (r : Replica) : Quiet r r.queueCommitted := by
  refine .record _ ?_ rfl (.silent rfl rfl rfl rfl rfl rfl rfl rfl rfl rfl)
  intro e he
  obtain ⟨_, _, rfl⟩ := List.mem_map.mp (List.mem_reverse.mp he)
  rfl

theorem quiet_executer (r : Replica) (ok : Bool) : Quiet r (r.executer ok) := by
  unfold executer
  split
  · exact .silent rfl rfl rfl rfl rfl rfl rfl rfl rfl rfl
  · next op rest _ =>
    exact .record (op.promiseHandle.toList.map .tookPromise ++ [.executed op (op.run r.db ok).2])
      (by simp [or_imp, forall_and, Event.isElection]) (by simp)
      (.silent rfl rfl rfl rfl rfl rfl rfl rfl rfl rfl)

theorem quiet_leaderAppendLoop (ops : List RaftOp) (r : Replica) :
    Quiet r (leaderAppendLoop ops r).1 := by
  induction ops generalizing r with
  | nil => exact Quiet.refl r
  | cons op ops ih =>
      have h := (quiet_pushLog r ⟨r.state.currentTerm, op⟩).trans
        (quiet_applyConfig _ op.command)
      unfold leaderAppendLoop
      split
      · next x u he => simpa only [he] using h
      · next x he => exact Quiet.trans (by simpa only [he] using h) (ih x)

theorem keeps_leaderAppend (r : Replica) (saved : Int) (ops : List RaftOp) :
    Keeps r (r.leaderAppend saved ops) := by
  have h := quiet_leaderAppendLoop ops r
  unfold leaderAppend
  split
  · next x u rest he =>
    rw [he] at h
    exact { h.toKeeps with }
  · next x he =>
    rw [he] at h
    exact { h.toKeeps with }

theorem keeps_raftImpl (r : Replica) : Keeps r r.raftImpl := by
  unfold raftImpl
  cases r.raftThread with
  | updatingPeers saved update rest => exact { keeps_updatePeers r update with }
  | isLeader => exact keeps_leaderAppend r _ _
  | relocking saved rest => exact keeps_leaderAppend r _ _
  | _ => exact ⟨rfl, rfl, rfl, rfl, rfl, fun _ _ => Iff.rfl, List.suffix_refl _, rfl⟩

theorem quiet_truncate (r : Replica) (n : Nat) : Quiet r (r.truncate n) := by
  refine .record _ ?_ rfl (.silent rfl rfl rfl rfl rfl rfl rfl rfl rfl rfl)
  intro e he
  simp only [List.mem_reverse, List.mem_filterMap, Option.map_eq_some_iff] at he
  obtain ⟨_, _, _, _, rfl⟩ := he
  rfl

theorem quiet_checkIndex (r : Replica) (e : AppendLogEntry) : Quiet r (r.checkIndex e) := by
  unfold checkIndex
  split
  · exact .record [.indexMismatch r.state.logs.size e.index] (by simp [Event.isElection]) rfl
      (.silent rfl rfl rfl rfl rfl rfl rfl rfl rfl rfl)
  · exact Quiet.refl r

theorem quiet_appendLoop (es : List AppendLogEntry) (r : Replica) :
    Quiet r (appendLoop es r).1 := by
  induction es generalizing r with
  | nil => exact Quiet.refl r
  | cons e es ih =>
      have h := (quiet_pushLog r ⟨e.term, e.op⟩).trans (quiet_applyConfig _ e.op.command)
      unfold appendLoop
      split
      · next x u he => simpa only [he] using h
      · next x he =>
        exact Quiet.trans (by simpa only [he] using h) ((quiet_checkIndex x e).trans (ih _))

theorem quiet_followCommit (r : Replica) (leaderCommit : Int) :
    Quiet r (r.followCommit leaderCommit) := by
  unfold followCommit
  split
  · refine Quiet.trans ?_ (quiet_queueCommitted _)
    exact .silent rfl rfl rfl rfl rfl rfl rfl rfl rfl rfl
  · exact Quiet.refl r

@[simp] theorem followCommit_logs (r : Replica) (leaderCommit : Int) :
    (r.followCommit leaderCommit).state.logs = r.state.logs := by
  unfold followCommit
  split <;> rfl

theorem quiet_appendRest (r : Replica) (args : AppendEntriesParams)
    (es : List AppendLogEntry) : Quiet r (r.appendRest args es).1 := by
  have h := quiet_appendLoop es r
  unfold appendRest
  split
  · next x u e rest he => simpa only [he] using h
  · next x he =>
    rw [he] at h
    exact h.trans ((quiet_persistLogs x).trans (quiet_followCommit _ _))

theorem matchingEntries_le (ls : List LogEntry) (es : List AppendLogEntry) :
    matchingEntries ls es ≤ ls.length ∧ matchingEntries ls es ≤ es.length := by
  induction ls, es using matchingEntries.induct with
  | case1 l ls e es differ => simp [matchingEntries, differ]
  | case2 l ls e es same ih => simpa [matchingEntries, same] using ih
  | case3 ls es h =>
      rw [matchingEntries.eq_2 _ _ h]
      exact ⟨Nat.zero_le _, Nat.zero_le _⟩

theorem newEntriesIndex_le (logs : LogVector) (args : AppendEntriesParams) :
    newEntriesIndex logs args ≤ args.entries.length :=
  (matchingEntries_le _ _).2

/-- A request is matched inside the log. -/
theorem logInsertIndex_le {logs : LogVector} {args : AppendEntriesParams}
    (prev : prevMatches logs args) : -1 ≤ args.prevLogIndex ∧
      (logInsertIndex logs args : Int) = args.prevLogIndex + 1 + newEntriesIndex logs args ∧
      logInsertIndex logs args ≤ logs.items.length := by
  have le := (matchingEntries_le (logs.items.drop (args.prevLogIndex + 1).toNat) args.entries).1
  rw [List.length_drop] at le
  unfold logInsertIndex newEntriesIndex
  rcases prev with start | ⟨inside, same⟩
  · rw [start] at le ⊢
    simp at le ⊢
    omega
  · unfold LogVector.size at inside
    have pos : 0 ≤ args.prevLogIndex := by
      by_contra neg
      rw [LogVector.at?, if_neg neg] at same
      cases same
    omega

theorem quiet_mergeEntries (r : Replica) (args : AppendEntriesParams) :
    Quiet r (r.mergeEntries args).1 := by
  unfold mergeEntries
  split
  · exact (quiet_truncate r _).trans (quiet_appendRest _ _ _)
  · exact quiet_followCommit r _

/-- The state in which `AppendEntries` compares the logs. -/
def meetLeader (r : Replica) (args : AppendEntriesParams) (now : Int) : RaftState :=
  if r.state.role = .dead then r.state else r.observeLeader args now

theorem quiet_appendEntries (r : Replica) (args : AppendEntriesParams) (now : Int) :
    Quiet { r with state := r.meetLeader args now } (r.appendEntries args now).1 := by
  unfold appendEntries meetLeader
  split
  · exact .silent rfl rfl rfl rfl rfl rfl rfl rfl rfl rfl
  · simp only
    split
    · exact quiet_mergeEntries _ _
    · exact Quiet.refl _

theorem quiet_clientCall (r : Replica) (op : Command) : Quiet r (r.clientCall op) :=
  .silent rfl rfl rfl rfl rfl rfl rfl rfl rfl rfl

theorem quiet_raftAddr (r : Replica) : Quiet r r.raftAddr.2 :=
  .silent rfl rfl rfl rfl rfl rfl rfl rfl rfl rfl

theorem quiet_startCall (r : Replica) (call : Call) : Quiet r (r.startCall call) :=
  .silent rfl rfl rfl rfl rfl rfl rfl rfl rfl rfl

theorem quiet_addServer (r : Replica) (args : AddServerParams) : Quiet r (r.addServer args) := by
  unfold addServer
  split
  · exact (quiet_raftAddr r).trans (quiet_startCall _ _)
  · split
    · exact (quiet_raftAddr r).trans (quiet_startCall _ _)
    · exact quiet_startCall r _

theorem quiet_removeServer (r : Replica) (serverId : Int) :
    Quiet r (r.removeServer serverId) := by
  unfold removeServer
  split
  · exact (quiet_raftAddr r).trans (quiet_startCall _ _)
  · split
    · exact (quiet_raftAddr r).trans (quiet_startCall _ _)
    · exact quiet_startCall r _

/-- A commit found by the scan changes nothing else but the maps, and is inside the log. -/
theorem commitScan_eq (id : Int) (peers : List Int) (s : RaftState) :
    ∃ m i, commitScan id peers s = { s with matchIndex := m, commitIndex := i } ∧
      (i = s.commitIndex ∨ s.commitIndex < i ∧ i < s.logs.size) := by
  have step (t : RaftState) (i : Int) : ∃ m j,
      commitStep id peers t i = { t with matchIndex := m, commitIndex := j } ∧
        (j = t.commitIndex ∨ j = i ∧ i < t.logs.size) := by
    simp only [commitStep]
    by_cases here : (t.logs.at? i).map (·.term) = some t.currentTerm
    · rw [if_pos here]
      by_cases most : ((if id ∈ t.clusterConfig then 1 else 0) +
          (countMatches i peers t.matchIndex).1) * 2 > (t.clusterConfig.size : Int)
      · rw [if_pos most]
        refine ⟨(countMatches i peers t.matchIndex).2, i, rfl, Or.inr ⟨rfl, ?_⟩⟩
        obtain ⟨e, he, _⟩ := Option.map_eq_some_iff.mp here
        unfold LogVector.at? at he
        split at he
        · have inside := (List.getElem?_eq_some_iff.mp he).1
          simp only [LogVector.size]
          omega
        · cases he
      · rw [if_neg most]
        exact ⟨(countMatches i peers t.matchIndex).2, t.commitIndex, rfl, Or.inl rfl⟩
    · rw [if_neg here]
      exact ⟨t.matchIndex, t.commitIndex, rfl, Or.inl rfl⟩
  unfold commitScan
  generalize List.range _ = js
  -- whatever has been found lies past the old index and inside the log
  suffices h : ∀ t : RaftState, (∃ m i, t = { s with matchIndex := m, commitIndex := i } ∧
      (i = s.commitIndex ∨ s.commitIndex < i ∧ i < s.logs.size)) → ∃ m i,
        js.foldl (fun t (j : Nat) => commitStep id peers t (s.commitIndex + 1 + j)) t =
          { s with matchIndex := m, commitIndex := i } ∧
        (i = s.commitIndex ∨ s.commitIndex < i ∧ i < s.logs.size) from
    h s ⟨_, _, rfl, Or.inl rfl⟩
  intro t found
  induction js generalizing t with
  | nil => exact found
  | cons j js ih =>
      refine ih _ ?_
      obtain ⟨m, i, rfl, range⟩ := found
      obtain ⟨m', i', h, range'⟩ := step { s with matchIndex := m, commitIndex := i }
        (s.commitIndex + 1 + j)
      refine ⟨m', i', h, ?_⟩
      rcases range' with rfl | ⟨rfl, inside⟩
      · exact range
      · exact Or.inr ⟨by omega, inside⟩

/-- The reply part of a sender thread: the replica steps down, does nothing, goes back after a
refusal, or notes the match and commits what it finds by that. -/
@[elab_as_elim]
theorem appendReply_elim {motive : Replica → Prop} (r : Replica) (id saved nextIndex : Int)
    (n : Nat) (reply : AppendEntriesRet) (now : Int)
    (down : saved < reply.term →
      motive { r with state := r.state.becomeFollower reply.term now })
    (idle : reply.term ≤ saved → ¬ (r.state.role = .leader ∧ saved = reply.term) → motive r)
    (refused : r.state.role = .leader → saved = reply.term → reply.success = false →
      motive { r with state := { r.state with
        nextIndex := r.state.nextIndex.insert id (nextIndex - 1) } })
    (matched : r.state.role = .leader → saved = reply.term → reply.success = true →
      ∀ m, (commitScan r.id r.peers.keys { r.state with
          nextIndex := r.state.nextIndex.insert id (nextIndex + n)
          matchIndex := r.state.matchIndex.insert id (nextIndex + n - 1) }).matchIndex = m →
        motive { r with state := { r.state with
          nextIndex := r.state.nextIndex.insert id (nextIndex + n), matchIndex := m } })
    (committed : r.state.role = .leader → saved = reply.term → reply.success = true →
      ∀ m i, (commitScan r.id r.peers.keys { r.state with
          nextIndex := r.state.nextIndex.insert id (nextIndex + n)
          matchIndex := r.state.matchIndex.insert id (nextIndex + n - 1) }).matchIndex = m →
        r.state.commitIndex < i → i < r.state.logs.size →
        ∀ s : RaftState, s = { r.state with
          nextIndex := r.state.nextIndex.insert id (nextIndex + n)
          matchIndex := m, commitIndex := i } →
        motive { r with state := s, hist := .committed s :: r.hist }.queueCommitted) :
    motive (r.appendReply id saved nextIndex n reply now) := by
  unfold appendReply
  split
  · next later => exact down later
  · next earlier =>
    split
    · next effective =>
      obtain ⟨leads, term⟩ := effective
      split
      · next ok =>
        obtain ⟨m, i, hs, range⟩ := commitScan_eq r.id r.peers.keys { r.state with
          nextIndex := r.state.nextIndex.insert id (nextIndex + n)
          matchIndex := r.state.matchIndex.insert id (nextIndex + n - 1) }
        have scanned := congrArg RaftState.matchIndex hs
        simp only [hs]
        split
        · next moved =>
          obtain ⟨later, inside⟩ := range.resolve_left moved
          exact committed leads term ok m i scanned later inside _ rfl
        · next same =>
          obtain rfl := not_not.mp same
          exact matched leads term ok m scanned
      · next failed => exact refused leads term (Bool.eq_false_iff.mpr failed)
    · next other => exact idle (Int.not_lt.mp earlier) other

/-- It steps down, or elections do not notice. -/
theorem appendReply_cases (r : Replica) (id saved nextIndex : Int) (n : Nat)
    (reply : AppendEntriesRet) (now : Int) :
    (saved < reply.term ∧ r.appendReply id saved nextIndex n reply now =
      { r with state := r.state.becomeFollower reply.term now }) ∨
    (reply.term ≤ saved ∧ Quiet r (r.appendReply id saved nextIndex n reply now)) := by
  refine appendReply_elim r id saved nextIndex n reply now ?down ?idle ?refused ?matched ?committed
  case down => exact fun later => Or.inl ⟨later, rfl⟩
  case idle => exact fun earlier _ => Or.inr ⟨earlier, Quiet.refl r⟩
  case refused =>
    intro _ term _
    exact Or.inr ⟨Int.le_of_eq term.symm, .silent rfl rfl rfl rfl rfl rfl rfl rfl rfl rfl⟩
  case matched =>
    intro _ term _ _ _
    exact Or.inr ⟨Int.le_of_eq term.symm, .silent rfl rfl rfl rfl rfl rfl rfl rfl rfl rfl⟩
  case committed =>
    rintro _ term _ m i _ _ _ _ rfl
    refine Or.inr ⟨Int.le_of_eq term.symm, Quiet.trans ?_ (quiet_queueCommitted _)⟩
    exact .record [.committed _] (by simp [Event.isElection]) rfl
      (.silent rfl rfl rfl rfl rfl rfl rfl rfl rfl rfl)

/-- The call is the last step of a replica's own removal. -/
def StepsDown (r : Replica) : Call → Prop
  | .removeWaitCommit serverId prev _ => serverId = r.id ∧ currentCommitted r.state prev
  | _ => False

instance (r : Replica) (call : Call) : Decidable (r.StepsDown call) :=
  match call with
  | .removeWaitCommit _ _ _ => inferInstanceAs (Decidable (_ ∧ _))
  | .submitting _ _ | .queueing _ _ | .refused _ _ | .waiting _ _ | .returned _ _ _
  | .addWaitPrev _ _ | .addSubmit _ _ | .addWaitCommit _ _ _ | .addReturned _
  | .removeWaitPrev _ _ | .removeSubmit _ _ | .removeReturned _ => inferInstanceAs (Decidable False)

/-- A step of a call: the replica steps down, or elections do not notice. -/
theorem advance_cases {now : Int} {call : Call} {p : Replica × Call}
    (h : r.advance now call = some p) :
    (r.StepsDown call ∧ p.1 = { r with state := r.state.becomeFollower (-1) now }) ∨
    (¬ r.StepsDown call ∧ Quiet r p.1) := by
  cases call with
  | removeWaitCommit serverId prev n =>
      simp only [advance] at h
      by_cases committed : currentCommitted r.state prev
      · rw [if_pos committed] at h
        by_cases self : serverId = r.id
        · cases h
          exact Or.inl ⟨⟨self, committed⟩, by rw [if_pos self]⟩
        · cases h
          exact Or.inr ⟨fun down => self down.1, by rw [if_neg self]; exact Quiet.refl r⟩
      · rw [if_neg committed] at h
        refine Or.inr ⟨fun down => committed down.2, ?_⟩
        split at h <;> cases h
        · exact quiet_raftAddr r
        · exact Quiet.refl r
  | refused op it =>
      cases h
      exact Or.inr ⟨fun down => down, .record [.tookPromise it] (by simp [Event.isElection]) rfl
        (.silent rfl rfl rfl rfl rfl rfl rfl rfl rfl rfl)⟩
  | submitting op it =>
      refine Or.inr ⟨fun down => down, ?_⟩
      simp only [advance] at h
      split at h <;> cases h <;> exact Quiet.refl r
  | waiting op it =>
      refine Or.inr ⟨fun down => down, ?_⟩
      simp only [advance] at h
      split at h
      · obtain ⟨_, _, rfl⟩ := Option.map_eq_some_iff.mp h
        exact Quiet.refl r
      · cases h
  | queueing op it =>
      cases h
      exact Or.inr ⟨fun down => down, (.silent rfl rfl rfl rfl rfl rfl rfl rfl rfl rfl)⟩
  | addSubmit info prev =>
      cases h
      exact Or.inr ⟨fun down => down, (.silent rfl rfl rfl rfl rfl rfl rfl rfl rfl rfl)⟩
  | removeSubmit serverId prev =>
      cases h
      exact Or.inr ⟨fun down => down, (.silent rfl rfl rfl rfl rfl rfl rfl rfl rfl rfl)⟩
  | addWaitPrev info n =>
      refine Or.inr ⟨fun down => down, ?_⟩
      simp only [advance] at h
      split at h
      · cases h; exact Quiet.refl r
      · split at h <;> cases h
        · exact quiet_raftAddr r
        · exact Quiet.refl r
  | removeWaitPrev serverId n =>
      refine Or.inr ⟨fun down => down, ?_⟩
      simp only [advance] at h
      split at h
      · cases h; exact Quiet.refl r
      · split at h <;> cases h
        · exact quiet_raftAddr r
        · exact Quiet.refl r
  | addWaitCommit info prev n =>
      refine Or.inr ⟨fun down => down, ?_⟩
      simp only [advance] at h
      split at h
      · cases h; exact quiet_raftAddr r
      · split at h
        · cases h; exact Quiet.refl r
        · split at h <;> cases h
          · exact quiet_raftAddr r
          · exact Quiet.refl r
  | returned op it ret => cases h
  | addReturned ret => cases h
  | removeReturned ret => cases h

/-- A replica that has just been launched. -/
structure Fresh (id : Int) (r : Replica) : Prop where
  id : r.id = id
  term : r.state.currentTerm = 0
  role : r.state.role = .follower
  logs : r.state.logs = {}
  commitIndex : r.state.commitIndex = -1
  lastApplied : r.state.lastApplied = -1
  dispatchOut : r.dispatchOut = []
  raftIn : r.raftIn = []
  raftOut : r.raftOut = []
  execIn : r.execIn = []
  raftThread : r.raftThread = .top
  voteThreads : r.voteThreads = []
  appendThreads : r.appendThreads = []
  handlers : r.handlers = []
  calls : r.calls = []
  promises : r.promises = {}
  db : r.db = fun _ => none
  hist : r.hist = []

/-- The servers of the configuration file, but for the replica itself. -/
structure Configured (config : IntMap ServerInfo) (r : Replica) : Prop where
  clusterConfig : r.state.clusterConfig = config
  peers : ∀ p, p ∈ r.peers ↔ p ∈ config ∧ p ≠ r.id

theorem foldl_addPeer_fresh {i : Int} {ps : List Int} (h : Fresh i r) :
    Fresh i (ps.foldl addPeer r) := by
  induction ps generalizing r with
  | nil => exact h
  | cons p ps ih => exact ih { h with }

theorem initialise_fresh (id : Int) (config : IntMap ServerInfo) :
    Fresh id (initialise id config) :=
  foldl_addPeer_fresh ⟨rfl, rfl, rfl, rfl, rfl, rfl, rfl, rfl, rfl, rfl, rfl, rfl, rfl, rfl,
    rfl, rfl, rfl, rfl⟩

theorem foldl_addPeer (ps : List Int) (r : Replica) :
    (ps.foldl addPeer r).state.clusterConfig = r.state.clusterConfig ∧
    ∀ p, p ∈ (ps.foldl addPeer r).peers ↔ p ∈ ps ∨ p ∈ r.peers := by
  induction ps generalizing r with
  | nil => simp
  | cons x ps ih =>
      refine ⟨(ih _).1, fun p => ?_⟩
      rw [List.foldl_cons, (ih _).2, addPeer, AList.mem_insert, List.mem_cons]
      tauto

theorem initialise_configured (id : Int) (config : IntMap ServerInfo) :
    Configured config (initialise id config) := by
  obtain ⟨same, peers⟩ := foldl_addPeer (config.keys.filter (· ≠ id))
    { id := id, state := ({ clusterConfig := config } : RaftState).persist }
  refine ⟨same, fun p => ?_⟩
  rw [(initialise_fresh id config).id]
  refine (peers p).trans ?_
  simp [AList.mem_keys]

end Replica
end OhMyDb
