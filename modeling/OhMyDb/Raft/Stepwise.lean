import OhMyDb.Model.Restart
import OhMyDb.Raft.Changes

/-!
Each step of the cluster is a sequence of changes of every replica. The functions
come first, each with the changes it makes.
-/

namespace OhMyDb
open Function (update)
open Execution

namespace Replica
variable {R : Rules} {r : Replica}

theorem Changes.stand {s : RaftState} (ok : R.stand) (x : Standing) (h : s = r.state.stand x)
    (rise : x.role = .leader → r.state.role = .leader ∨ R.rise r) :
    Changes R r { r with state := s } :=
  .single (h ▸ .stand x ok rise)

/-- What does not make the replica a leader. -/
theorem Changes.stands {s : RaftState} (ok : R.stand) (h : s = r.state.stand s.standing)
    (role : s.role = .leader → r.state.role = .leader) : Changes R r { r with state := s } :=
  .stand ok _ h fun lead => Or.inl (role lead)

theorem Changes.becomeFollower (ok : R.stand) (r : Replica) (term now : Int) :
    Changes R r { r with state := r.state.becomeFollower term now } :=
  .stands ok rfl (by simp [RaftState.becomeFollower, RaftState.persist])

/-! Elections. -/

theorem electionTick_changes (stand : R.stand) (r : Replica) (now timeout : Int) :
    Changes R r (r.electionTick now timeout) := by
  unfold electionTick
  split
  · exact ((Changes.stands (s := (r.startElection now).state) stand rfl (by simp [startElection,
      RaftState.becomeCandidate, RaftState.persist])).tail (.elect _)).tail (.record _ rfl)
  · exact .refl

theorem requestVote_changes (stand : R.stand) (r : Replica) (args : RequestVoteParams) (now : Int) :
    Changes R r (r.requestVote args now).1 := by
  have observed : r.observeTerm args.term now =
        r.state.stand (r.observeTerm args.term now).standing ∧
      ((r.observeTerm args.term now).role = .leader → r.state.role = .leader) := by
    unfold observeTerm
    split
    · exact ⟨rfl, by simp [RaftState.becomeFollower, RaftState.persist]⟩
    · exact ⟨rfl, fun lead => lead⟩
  simp only [requestVote]
  generalize r.observeTerm args.term now = s at observed ⊢
  obtain ⟨same, role⟩ := observed
  split
  · exact .refl
  · split
    · refine (Changes.stands (s := { s with
        votedFor := args.candidateId, electionResetEvent := now }.persist) stand ?_ role).tail
        (.record _ rfl)
      rw [same]
      rfl
    · refine Changes.stands (s := s.persist) stand ?_ role
      rw [same]
      rfl

theorem voteReply_changes (stand : R.stand) (r : Replica) (saved : Int) (reply : RequestVoteRet)
    (now : Int) (rise : r.state.role = .candidate → R.rise r) :
    Changes R r (r.voteReply saved reply now) := by
  simp only [voteReply]
  split
  · exact .refl
  · next candidate =>
    split
    · exact .becomeFollower stand r reply.term now
    · split
      · split
        · generalize elected : RaftState.becomeLeader _ r.id r.peers.keys now = s
          have same : s = r.state.stand s.standing := by rw [← elected]; rfl
          exact (Changes.stand stand _ same fun _ => Or.inr (rise (not_not.mp candidate))).tail
            (.record (.becameLeader s) rfl)
        · exact .stands stand rfl fun lead => lead
      · exact .refl

/-! The log of a leader. -/

theorem leaderAppend_cons (r : Replica) (saved : Int) (op : RaftOp) (ops : List RaftOp) :
    r.leaderAppend saved (op :: ops) =
      match op.command.peerUpdate r.id with
      | some u => { r.append ⟨r.state.currentTerm, op⟩ with
          raftThread := .updatingPeers saved u ops }
      | none => (r.append ⟨r.state.currentTerm, op⟩).leaderAppend saved ops := by
  rw [leaderAppend, leaderAppendLoop, applyConfig_pushLog r ⟨r.state.currentTerm, op⟩]
  cases op.command.peerUpdate r.id <;> rfl

/-- Where the thread stood before does not matter. -/
theorem leaderAppend_thread (ops : List RaftOp) (r : Replica) (saved : Int) (t : RaftThread) :
    { r with raftThread := t }.leaderAppend saved ops = r.leaderAppend saved ops := by
  induction ops generalizing r with
  | nil => rfl
  | cons op ops ih =>
      rw [leaderAppend_cons, leaderAppend_cons]
      cases op.command.peerUpdate r.id with
      | some u => rfl
      | none => exact ih (r.append ⟨r.state.currentTerm, op⟩)

theorem leaderAppend_changes (lead : R.lead) (ops : List RaftOp) (r : Replica) (saved : Int)
    (thread : r.raftThread = .relocking saved ops) : Changes R r (r.leaderAppend saved ops) := by
  induction ops generalizing r with
  | nil => exact .single (.finish saved thread)
  | cons op ops ih =>
      have pushed := Change.push saved op ops thread lead
      rw [leaderAppend_cons]
      cases h : op.command.peerUpdate r.id with
      | some u =>
          rw [h] at pushed
          exact .single pushed
      | none =>
          rw [h] at pushed
          refine .head pushed ?_
          rw [← leaderAppend_thread ops (r.append _) saved (.relocking saved ops)]
          exact ih _ rfl

theorem raftImpl_changes (r : Replica) (lead : R.lead)
    (check : r.raftThread = .swapped → R.check r)
    (upd : ∀ saved u rest, r.raftThread = .updatingPeers saved u rest → R.update u r.raftImpl)
    (bare : r.Bare) : Changes R r r.raftImpl := by
  unfold raftImpl at upd ⊢
  cases thread : r.raftThread with
  | top => exact .single (.swap thread)
  | swapped => exact .single (.check thread (check thread))
  | isLeader =>
      refine .head (.begin thread) ?_
      rw [← leaderAppend_thread r.raftIn r _ (.relocking r.state.currentTerm r.raftIn)]
      exact leaderAppend_changes lead _ _ _ rfl
  | updatingPeers saved u rest =>
      have ok := upd saved u rest thread
      rw [thread] at ok
      exact .single (.update saved u rest thread ok)
  | relocking saved rest => exact leaderAppend_changes lead _ _ _ thread
  | spawning saved =>
      refine (Relation.ReflTransGen.single (.spawn saved thread)).tail (.send _ ?_)
      intro t ht
      rcases List.mem_append.mp ht with ht | ht
      · exact bare.threads t ht
      · obtain ⟨_, _, rfl⟩ := List.mem_map.mp ht
        exact fun args h => absurd h (by simp)
  | sleeping => exact .single (.clear thread)

/-! Serving `AppendEntries`. -/

/-- The size `AppendEntries` resizes the log to, where it gets there. -/
def cut (r : Replica) (args : AppendEntriesParams) (now : Int) : Option Nat :=
  if r.state.role ≠ .dead ∧ args.term = (r.observeLeader args now).currentTerm ∧
      prevMatches r.state.logs args ∧
      newEntriesIndex r.state.logs args < args.entries.length then
    some (logInsertIndex r.state.logs args)
  else none

/-- A call of `AppendEntries` that has not returned joins the handlers. -/
def settle (owner : Int) (k : Nat) (args : AppendEntriesParams) (r : Replica) :
    AppendOutcome → Replica
  | .replied _ => r
  | .suspended update current rest => { r with handlers := r.handlers ++
      [{ owner := owner, thread := k, args := args, update := some update,
         current := current, rest := rest }] }

theorem observeLeader_eq (r : Replica) (args : AppendEntriesParams) (now : Int) :
    r.observeLeader args now = r.state.stand (r.observeLeader args now).standing ∧
      ((r.observeLeader args now).role = .leader → r.state.role = .leader) := by
  simp only [observeLeader]
  split_ifs <;> exact ⟨rfl, by simp [RaftState.becomeFollower, RaftState.persist]⟩

@[simp] theorem observeLeader_logs (r : Replica) (args : AppendEntriesParams) (now : Int) :
    (r.observeLeader args now).logs = r.state.logs := by
  rw [(r.observeLeader_eq args now).1]
  rfl

@[simp] theorem observeLeader_commitIndex (r : Replica) (args : AppendEntriesParams) (now : Int) :
    (r.observeLeader args now).commitIndex = r.state.commitIndex := by
  rw [(r.observeLeader_eq args now).1]
  rfl

@[simp] theorem observeLeader_lastApplied (r : Replica) (args : AppendEntriesParams) (now : Int) :
    (r.observeLeader args now).lastApplied = r.state.lastApplied := by
  rw [(r.observeLeader_eq args now).1]
  rfl

/-- A replica that accepts entries is a follower. -/
theorem observeLeader_role {r : Replica} {args : AppendEntriesParams} {now : Int}
    (h : args.term = (r.observeLeader args now).currentTerm) :
    (r.observeLeader args now).role = .follower := by
  simp only [observeLeader] at h ⊢
  generalize (if args.term > _ then _ else _ : RaftState) = s at h ⊢
  by_cases steps : args.term = s.currentTerm ∧ s.role ≠ .follower
  · rw [if_pos steps]
    rfl
  · rw [if_neg steps] at h ⊢
    exact not_not.mp fun ne => steps ⟨h, ne⟩

theorem followCommit_changes (r : Replica) (leaderCommit : Int) :
    Changes R r (r.followCommit leaderCommit) := by
  unfold followCommit
  split
  · next later =>
    refine .single (.commit (min leaderCommit (r.state.logs.size - 1)) ?_ ?_) <;> omega
  · exact .refl

theorem appendRest_nil (r : Replica) (args : AppendEntriesParams) :
    r.appendRest args [] = (r.persistLogs.followCommit args.leaderCommit,
      .replied { term := (r.persistLogs.followCommit args.leaderCommit).state.currentTerm
                 success := true }) := rfl

theorem appendRest_cons (r : Replica) (args : AppendEntriesParams) (e : AppendLogEntry)
    (es : List AppendLogEntry) :
    r.appendRest args (e :: es) =
      match e.op.command.peerUpdate r.id with
      | some u => (r.append ⟨e.term, e.op⟩, .suspended u e es)
      | none => ((r.append ⟨e.term, e.op⟩).checkIndex e).appendRest args es := by
  rw [appendRest, appendLoop, applyConfig_pushLog r ⟨e.term, e.op⟩]
  cases e.op.command.peerUpdate r.id <;> rfl

theorem checkIndex_changes (r : Replica) (e : AppendLogEntry) : Changes R r (r.checkIndex e) := by
  unfold checkIndex
  split
  · exact .single (.record _ rfl)
  · exact .refl

@[simp] theorem checkIndex_calls (r : Replica) (e : AppendLogEntry) :
    (r.checkIndex e).calls = r.calls := by
  unfold checkIndex
  split <;> rfl

@[simp] theorem checkIndex_handlers (r : Replica) (e : AppendLogEntry) :
    (r.checkIndex e).handlers = r.handlers := by
  unfold checkIndex
  split <;> rfl

theorem checkIndex_with (r : Replica) (e : AppendLogEntry) (hs : List AppendHandler) :
    { r with handlers := hs }.checkIndex e = { r.checkIndex e with handlers := hs } := by
  unfold checkIndex
  split <;> rfl

/-- The append loop, from where the call is the last of the handlers. -/
theorem appendRest_changes (owner : Int) (k : Nat) (args : AppendEntriesParams)
    (es : List AppendLogEntry) (r : Replica) (current : AppendLogEntry)
    (bare : ∀ e ∈ es, e.op.promiseHandle = none) (ok : ∀ e ∈ es, R.follow r.calls e) :
    Changes R { r with handlers := r.handlers ++ [⟨owner, k, args, none, current, es⟩] }
      ((r.appendRest args es).1.settle owner k args (r.appendRest args es).2) := by
  induction es generalizing r current with
  | nil =>
      rw [appendRest_nil]
      exact .head (.leave _ _ rfl rfl rfl) (followCommit_changes _ _)
  | cons e es ih =>
      have followed := Change.follow (R := R)
        (r := { r with handlers := r.handlers ++ [⟨owner, k, args, none, current, e :: es⟩] })
        r.handlers _ e es rfl rfl rfl (bare e List.mem_cons_self) (ok e List.mem_cons_self)
      rw [appendRest_cons]
      cases h : e.op.command.peerUpdate r.id with
      | some u =>
          simp only [h] at followed
          exact .single followed
      | none =>
          simp only [h] at followed
          have checked := checkIndex_changes (R := R) { r.append ⟨e.term, e.op⟩ with
            handlers := r.handlers ++ [⟨owner, k, args, none, e, es⟩] } e
          rw [checkIndex_with] at checked
          have later := ih ((r.append ⟨e.term, e.op⟩).checkIndex e) e
            (fun x hx => bare x (List.mem_cons_of_mem _ hx)) fun x hx => by
              rw [checkIndex_calls]
              exact ok x (List.mem_cons_of_mem _ hx)
          rw [checkIndex_handlers] at later
          exact .head followed (checked.trans later)

/-- A call that has been interrupted goes on. -/
theorem resume_changes (r : Replica) (h : AppendHandler) (locked : h.update = none)
    (bare : ∀ e ∈ h.rest, e.op.promiseHandle = none) (ok : ∀ e ∈ h.rest, R.follow r.calls e) :
    Changes R { r with handlers := r.handlers ++ [h] }
      (((r.checkIndex h.current).appendRest h.args h.rest).1.settle h.owner h.thread h.args
        ((r.checkIndex h.current).appendRest h.args h.rest).2) := by
  obtain ⟨owner, thread, args, update, current, rest⟩ := h
  obtain rfl : update = none := locked
  have checked := checkIndex_changes (R := R)
    { r with handlers := r.handlers ++ [⟨owner, thread, args, none, current, rest⟩] } current
  have resumed := appendRest_changes (R := R) owner thread args rest (r.checkIndex current) current
    bare fun e he => by
      rw [checkIndex_calls]
      exact ok e he
  rw [checkIndex_with] at checked
  rw [checkIndex_handlers] at resumed
  exact checked.trans resumed

theorem mergeEntries_changes {owner : Int} {k : Nat} (r : Replica) (args : AppendEntriesParams)
    (bare : ∀ e ∈ args.entries, e.op.promiseHandle = none)
    (ok : newEntriesIndex r.state.logs args < args.entries.length →
      R.cut r (logInsertIndex r.state.logs args) ∧
      ∀ e ∈ args.entries.drop (newEntriesIndex r.state.logs args), R.follow r.calls e) :
    Changes R r ((r.mergeEntries args).1.settle owner k args (r.mergeEntries args).2) := by
  unfold mergeEntries
  split
  · next behind =>
    obtain ⟨cut, follow⟩ := ok behind
    refine .head (.cut _ cut) (.head (.enter
      ⟨owner, k, args, none, ⟨args.term, 0, ⟨.get 0, none⟩⟩, _⟩ rfl ?_)
      (appendRest_changes _ _ _ _ _ _ ?_ follow)) <;>
    exact fun e he => bare e (List.mem_of_mem_drop he)
  · exact followCommit_changes _ _

theorem appendEntries_changes (stand : R.stand) {owner : Int} {k : Nat} (r : Replica)
    (args : AppendEntriesParams) (now : Int) (bare : ∀ e ∈ args.entries, e.op.promiseHandle = none)
    (ok : ∀ n ∈ r.cut args now, R.cut { r with state := r.observeLeader args now } n ∧
      ∀ e ∈ args.entries.drop (newEntriesIndex r.state.logs args), R.follow r.calls e) :
    Changes R r ((r.appendEntries args now).1.settle owner k args
      (r.appendEntries args now).2) := by
  obtain ⟨same, role⟩ := r.observeLeader_eq args now
  have logs : (r.observeLeader args now).logs = r.state.logs := by rw [same]; rfl
  by_cases dead : r.state.role = .dead
  · simp only [appendEntries, if_pos dead]
    exact Changes.stands stand rfl fun lead => lead
  · simp only [appendEntries, if_neg dead]
    split
    · next accepted =>
      refine (Changes.stands stand same role).trans
        (mergeEntries_changes _ args bare fun behind => ?_)
      simp only [logs] at behind accepted ⊢
      exact ok _ (if_pos ⟨dead, accepted.1, accepted.2, behind⟩)
    · exact Changes.stands stand same role

theorem entriesFrom_bare (logs : LogVector) (nextIndex : Int) :
    ∀ e ∈ entriesFrom logs nextIndex, e.op.promiseHandle = none := by
  intro e he
  unfold entriesFrom at he
  split at he
  · exact absurd he List.not_mem_nil
  · obtain ⟨j, _, rfl⟩ := List.mem_mapIdx.mp he
    rfl

/-! The replies, the executer and the calls. -/

theorem appendReply_changes (stand : R.stand) (r : Replica) (id saved nextIndex : Int) (n : Nat)
    (reply : AppendEntriesRet) (now : Int) :
    Changes R r (r.appendReply id saved nextIndex n reply now) := by
  refine appendReply_elim r id saved nextIndex n reply now ?down ?idle ?refused ?matched ?committed
  case down => exact fun _ => .becomeFollower stand r reply.term now
  case idle => exact fun _ _ => .refl
  case refused => exact fun _ _ _ => Changes.stands stand rfl fun lead => lead
  case matched => exact fun _ _ _ m _ => Changes.stands stand rfl fun lead => lead
  case committed =>
    rintro _ _ _ m i _ later inside s rfl
    have matched : Changes R r { r with state := { r.state with
        nextIndex := r.state.nextIndex.insert id (nextIndex + n), matchIndex := m } } :=
      .stands stand rfl fun lead => lead
    exact (matched.tail (.record (.committed _) rfl)).tail (.commit i (Or.inl later) inside)

theorem executer_changes (r : Replica) (status : Bool)
    (ok : ∀ op ∈ r.execIn.head?, R.execute r op status) : Changes R r (r.executer status) := by
  unfold executer
  split
  · next empty => exact .single (.fetch empty)
  · next op rest h => exact .single (.execute op rest status h (ok op (by simp [h])))

theorem raftAddr_changes (r : Replica) (ok : R.address r.state) : Changes R r r.raftAddr.2 :=
  .single (.address ok)

/-- The step of a call looks the address of the leader up. -/
def LooksUp (r : Replica) : Call → Prop
  | .refused _ _ => True
  | .addWaitPrev _ n | .removeWaitPrev _ n =>
      ¬ prevCommitted r.state ∧ n + 1 = RAFT_MEMBERSHIP_WAIT_ITERS
  | .addWaitCommit _ prev n => r.state.role ≠ .leader ∨
      (¬ currentCommitted r.state prev ∧ n + 1 = RAFT_MEMBERSHIP_WAIT_ITERS)
  | .removeWaitCommit _ prev n =>
      ¬ currentCommitted r.state prev ∧ n + 1 = RAFT_MEMBERSHIP_WAIT_ITERS
  | _ => False

theorem addServer_changes (r : Replica) (args : AddServerParams)
    (ok : r.state.role ≠ .leader ∨ args.serverId ∈ r.state.clusterConfig → R.address r.state) :
    Changes R r (r.addServer args) := by
  unfold addServer
  split
  · next follower =>
    exact (raftAddr_changes r (ok (Or.inl follower))).tail
      (.start _ rfl (by simp [Call.membership]))
  · split
    · next member =>
      exact (raftAddr_changes r (ok (Or.inr member))).tail
        (.start _ rfl (by simp [Call.membership]))
    · exact .single (.start _ rfl (by simp [Call.membership]))

theorem removeServer_changes (r : Replica) (serverId : Int)
    (ok : r.state.role ≠ .leader ∨ serverId ∉ r.state.clusterConfig → R.address r.state) :
    Changes R r (r.removeServer serverId) := by
  unfold removeServer
  split
  · next follower =>
    exact (raftAddr_changes r (ok (Or.inl follower))).tail
      (.start _ rfl (by simp [Call.membership]))
  · split
    · next member =>
      exact (raftAddr_changes r (ok (Or.inr member))).tail
        (.start _ rfl (by simp [Call.membership]))
    · exact .single (.start _ rfl (by simp [Call.membership]))

theorem advance_changes {now : Int} {j : Nat} {call : Call} {p : Replica × Call}
    (hc : r.calls[j]? = some call) (ok : R.call r call)
    (address : r.LooksUp call → R.address r.state) (stand : r.StepsDown call → R.stand)
    (h : r.advance now call = some p) :
    Changes R r { p.1 with calls := p.1.calls.set j p.2 } := by
  -- the call moves, and the address is looked up where that is needed
  have goesOn {call' : Call} (moves : call.Moves r.state r.promises call') :
      Changes R r { r with calls := r.calls.set j call' } :=
    .single (.call j call call' hc ok moves)
  have givesUp {call' : Call} (up : r.LooksUp call) (moves : call.Moves r.state r.promises call') :
      Changes R r { r.raftAddr.2 with calls := r.calls.set j call' } :=
    (goesOn moves).tail (.address (address up))
  cases call with
  | submitting op it =>
      simp only [advance] at h
      split at h <;> cases h
      · exact goesOn (.refuse op it)
      · exact goesOn (.accept op it)
  | queueing op it =>
      cases h
      exact .single (.queue j op it hc ok)
  | refused op it =>
      cases h
      exact .tail (.single (.discard j op it _ hc rfl)) (.address (address True.intro))
  | waiting op it =>
      simp only [advance] at h
      split at h
      · next res hres =>
        obtain ⟨ret, answer, rfl⟩ := Option.map_eq_some_iff.mp h
        obtain ⟨x, hx, rfl⟩ := Option.map_eq_some_iff.mp hres
        obtain rfl : x.1 = it := by simpa using List.find?_some hx
        exact goesOn (.answer op x.1 x.2 ret (List.mem_of_find?_eq_some hx) answer)
      · cases h
  | addSubmit info prev =>
      cases h
      exact .single (.submit j _ _ (.addServer info) prev hc ok rfl rfl)
  | removeSubmit serverId prev =>
      cases h
      exact .single (.submit j _ _ (.removeServer serverId) prev hc ok rfl rfl)
  | addWaitPrev info n =>
      simp only [advance] at h
      split at h
      · next committed =>
        cases h
        exact goesOn (.pass (.addServer info) rfl committed rfl)
      · next waits =>
        split at h <;> cases h
        · next last =>
          exact givesUp ⟨waits, last⟩ (.finish (.addServer info, .waitPrev) rfl rfl rfl)
        · exact goesOn (.wait (.addServer info, .waitPrev) rfl rfl)
  | removeWaitPrev serverId n =>
      simp only [advance] at h
      split at h
      · next committed =>
        cases h
        exact goesOn (.pass (.removeServer serverId) rfl committed rfl)
      · next waits =>
        split at h <;> cases h
        · next last =>
          exact givesUp ⟨waits, last⟩ (.finish (.removeServer serverId, .waitPrev) rfl rfl rfl)
        · exact goesOn (.wait (.removeServer serverId, .waitPrev) rfl rfl)
  | addWaitCommit info prev n =>
      have ends {call' : Call} (m : call'.membership = none) (s : call'.submission = none) :
          Call.Moves r.state r.promises (.addWaitCommit info prev n) call' :=
        .finish (.addServer info, .waitCommit prev) rfl m s
      simp only [advance] at h
      split at h
      · next follower =>
        cases h
        exact givesUp (Or.inl follower) (ends rfl rfl)
      · split at h
        · cases h
          exact goesOn (ends rfl rfl)
        · next waits =>
          split at h <;> cases h
          · next last => exact givesUp (Or.inr ⟨waits, last⟩) (ends rfl rfl)
          · exact goesOn (.wait (.addServer info, .waitCommit prev) rfl rfl)
  | removeWaitCommit serverId prev n =>
      have ends {call' : Call} (m : call'.membership = none) (s : call'.submission = none) :
          Call.Moves r.state r.promises (.removeWaitCommit serverId prev n) call' :=
        .finish (.removeServer serverId, .waitCommit prev) rfl m s
      simp only [advance] at h
      split at h
      · next committed =>
        cases h
        split
        · next self =>
          let left := { r with calls := r.calls.set j (.removeReturned ⟨.ok, ""⟩) }
          have gone : Changes R r left := goesOn (ends rfl rfl)
          exact gone.trans (Changes.becomeFollower (stand ⟨self, committed⟩) left (-1) now)
        · exact goesOn (ends rfl rfl)
      · next waits =>
        split at h <;> cases h
        · next last => exact givesUp ⟨waits, last⟩ (ends rfl rfl)
        · exact goesOn (.wait (.removeServer serverId, .waitCommit prev) rfl rfl)
  | returned op it ret => cases h
  | addReturned ret => cases h
  | removeReturned ret => cases h

theorem Change.id {r' : Replica} (h : Change R r r') : r'.id = r.id := by
  cases h with
  | update saved u rest _ _ => cases u <;> rfl
  | updateHandler j x u _ _ _ => cases u <;> rfl
  | _ => rfl

theorem Change.role {r' : Replica} (h : Change R r r') (lead : r'.state.role = .leader) :
    r.state.role = .leader ∨ R.rise r := by
  cases h with
  | stand x _ rise => exact rise lead
  | update saved u rest _ _ => cases u <;> exact Or.inl lead
  | updateHandler j x u _ _ _ => cases u <;> exact Or.inl lead
  | _ => exact Or.inl lead

/-- What every change preserves. -/
theorem Changes.preserves {I : Replica → Prop} {r' : Replica} (h : Changes R r r')
    (preserved : ∀ x x', I x → Change R x x' → I x') (hi : I r) : I r' := by
  induction h with
  | refl => exact hi
  | tail _ last ih => exact preserved _ _ ih last

/-! Messages. -/

variable {r' : Replica}

theorem Bare.change (b : r.Bare) (ch : Change R r r') : r'.Bare := by
  cases ch with
  | send threads bare => exact ⟨bare, b.handlers⟩
  | enter h _ bare =>
      refine ⟨b.threads, fun x hx => ?_⟩
      rcases List.mem_append.mp hx with hx | hx
      · exact b.handlers x hx
      · obtain rfl := List.mem_singleton.mp hx
        exact bare
  | again j h at_ _ =>
      refine ⟨b.threads, fun x hx => ?_⟩
      rcases List.mem_append.mp hx with hx | hx
      · exact b.handlers x (List.mem_of_mem_eraseIdx hx)
      · obtain rfl := List.mem_singleton.mp hx
        exact b.handlers x (List.mem_of_getElem? at_)
  | follow hs h e rest at_ _ next_ _ _ =>
      refine ⟨b.threads, fun x hx => ?_⟩
      rcases List.mem_append.mp hx with hx | hx
      · exact b.handlers x (at_ ▸ List.mem_append_left _ hx)
      · obtain rfl := List.mem_singleton.mp hx
        exact fun y hy => b.handlers h (at_ ▸ List.mem_append_right _ List.mem_cons_self) y
          (next_ ▸ List.mem_cons_of_mem _ hy)
  | leave hs h at_ _ _ =>
      exact ⟨b.threads, fun x hx => b.handlers x (at_ ▸ List.mem_append_left _ hx)⟩
  | update saved u rest _ _ => cases u <;> exact ⟨b.threads, b.handlers⟩
  | updateHandler j h u at_ _ _ =>
      have kept : ∀ x ∈ r.handlers.set j { h with update := none }, ∀ e ∈ x.rest,
          e.op.promiseHandle = none := by
        intro x hx
        rcases List.mem_or_eq_of_mem_set hx with hx | rfl
        · exact b.handlers x hx
        · exact b.handlers h (List.mem_of_getElem? at_)
      cases u <;> exact ⟨b.threads, kept⟩
  | _ => exact ⟨b.threads, b.handlers⟩

theorem Bare.changes (b : r.Bare) (ch : Changes R r r') : r'.Bare :=
  Changes.preserves ch (fun _ _ => Bare.change) b

theorem Bare.modify (b : r.Bare) (k : ℕ) {f : AppendThread → AppendThread}
    (same : ∀ t, (f t).args = t.args) : ∀ t ∈ r.appendThreads.modify k f, ∀ args ∈ t.args,
      ∀ e ∈ args.entries, e.op.promiseHandle = none := by
  intro t ht
  rcases List.mem_or_eq_of_mem_modify ht with h | ⟨u, hu, rfl⟩
  · exact b.threads t h
  · rw [same]
    exact b.threads u (List.mem_of_getElem? hu)

theorem Bare.bootstrap (bare : r.Bare) (withBootstrap : Bool) (p : PersistentStore)
    (file : List LogEntry) : (r.bootstrap withBootstrap p file).Bare := by
  refine ⟨fun t ht args ha => ?_, fun h hh => by cases hh⟩
  obtain ⟨u, hu, rfl⟩ := List.mem_map.mp ht
  exact bare.threads u hu args ha

theorem Bare.restart (b : r.Bare) (config : IntMap ServerInfo) : (r.restart config).Bare := by
  have kept (ps : List Int) (x : Replica) (h : x.Bare) : (ps.foldl addPeer x).Bare := by
    induction ps generalizing x with
    | nil => exact h
    | cons p ps ih => exact ih _ ⟨h.threads, h.handlers⟩
  refine kept _ _ ⟨fun t ht => ?_, fun _ h => absurd h List.not_mem_nil⟩
  obtain ⟨t', ht', rfl⟩ := List.mem_map.mp ht
  exact b.threads t' ht'

/-- A thread is changed, but for the message it has sent. -/
theorem Changes.updateAppendThread {x : Replica} (h : Changes R r x) (b : r.Bare) (k : ℕ)
    {f : AppendThread → AppendThread} (same : ∀ t, (f t).args = t.args) :
    Changes R r (x.updateAppendThread k f) :=
  h.tail (.send _ ((b.changes h).modify k same))

end Replica

namespace Cluster
open Replica (Rules Changes)
variable {R : Rules} {c c' : Cluster} {a : Action}

/-- A step keeps to the rules. -/
def Abides (R : Rules) (c : Cluster) : Action → Prop
  | .electionTick _ _ _ | .voteDeliver _ _ _ | .appendSend _ _ _ | .appendReturn _ _ _ _ => R.stand
  | .voteReturn r _ _ _ => R.stand ∧ ((c.node r).state.role = .candidate → R.rise (c.node r))
  | .raftImpl r => R.lead ∧ ((c.node r).raftThread = .swapped → R.check (c.node r)) ∧
      ∀ saved u rest, (c.node r).raftThread = .updatingPeers saved u rest →
        R.update u (c.node r).raftImpl
  | .appendDeliver r k now => R.stand ∧ ∀ t ∈ (c.node r).appendThreads[k]?, ∀ args ∈ t.args,
      ∀ n ∈ (c.node t.peer).cut args now,
        R.cut { c.node t.peer with state := (c.node t.peer).observeLeader args now } n ∧
        ∀ e ∈ args.entries.drop (Replica.newEntriesIndex (c.node t.peer).state.logs args),
          R.follow (c.node t.peer).calls e
  | .appendResume p j => ∀ h ∈ (c.node p).handlers[j]?,
      (∀ u ∈ h.update, R.update u { (c.node p).updatePeers u with
        handlers := (c.node p).handlers.set j { h with update := none } }) ∧
      (h.update = none → ∀ e ∈ h.rest, R.follow (c.node p).calls e)
  | .executer r ok => ∀ op ∈ (c.node r).execIn.head?, R.execute (c.node r) op ok
  | .addServer r args => (c.node r).state.role ≠ .leader ∨
      args.serverId ∈ (c.node r).state.clusterConfig → R.address (c.node r).state
  | .removeServer r serverId => (c.node r).state.role ≠ .leader ∨
      serverId ∉ (c.node r).state.clusterConfig → R.address (c.node r).state
  | .callStep r j _ => ∀ call ∈ (c.node r).calls[j]?,
      R.call (c.node r) call ∧ ((c.node r).LooksUp call → R.address (c.node r).state) ∧
        ((c.node r).StepsDown call → R.stand)
  | _ => True

/-- Every replica changes as replicas do. -/
def ReplicasMove (R : Rules) (c c' : Cluster) : Prop :=
  ∀ q, Changes R (c.node q) (c'.node q)

theorem ReplicasMove.set {r : Int} {x : Replica} (h : Changes R (c.node r) x) :
    ReplicasMove R c (c.set r x) :=
  fun _ => set_cases (fun here => here ▸ h) fun _ => .refl

theorem ReplicasMove.trans {c'' : Cluster} (h : ReplicasMove R c c') (h' : ReplicasMove R c' c'') :
    ReplicasMove R c c'' :=
  fun q => (h q).trans (h' q)

theorem settleAppend_changes {p owner : Int} {k : Nat} {args : AppendEntriesParams}
    {x : Replica} {outcome : Replica.AppendOutcome} (bare : ∀ q, (c.node q).Bare)
    (h : Changes R (c.node p) (x.settle owner k args outcome)) :
    ReplicasMove R c (c.settleAppend p owner k args x outcome) := by
  have moved := ReplicasMove.set h
  cases outcome with
  | replied ret =>
      refine moved.trans (.set (Changes.updateAppendThread .refl ?_ k fun _ => rfl))
      exact (bare owner).changes (moved owner)
  | suspended update current rest => exact moved

theorem Transition.changes (tr : Transition c a c') (bare : ∀ q, (c.node q).Bare)
    (ok : c.Abides R a) : ReplicasMove R c c' := by
  cases tr with
  | electionTick r now timeout => exact .set (Replica.electionTick_changes ok _ _ _)
  | voteSend r k t _ _ _ _ => exact .set (.single (.elect _))
  | voteDeliver r k now t args _ _ _ =>
      exact (ReplicasMove.set (Replica.requestVote_changes ok _ _ _)).trans
        (.set (.single (.elect _)))
  | voteReturn r k reply now t _ _ _ =>
      exact .set ((Replica.voteReply_changes ok.1 _ _ _ _ ok.2).tail (.elect _))
  | voteFail r k t _ _ => exact .set (.single (.elect _))
  | raftImpl r => exact .set (Replica.raftImpl_changes _ ok.1 ok.2.1 ok.2.2 (bare r))
  | appendSend r k junk t _ _ _ _ =>
      refine .set ((Changes.stands (s := { (c.node r).state with
        nextIndex := ((c.node r).state.nextIndex.subscript t.peer 0).2 }) ok rfl
        fun lead => lead).tail (.send _ fun u hu => ?_))
      rcases List.mem_or_eq_of_mem_modify hu with hu | ⟨v, hv, rfl⟩
      · exact (bare r).threads u hu
      · rintro args ⟨⟩
        exact Replica.entriesFrom_bare _ _
  | appendDeliver r k now t args ht ha _ =>
      exact settleAppend_changes bare (Replica.appendEntries_changes ok.1 (c.node t.peer) args now
        ((bare r).threads t (List.mem_of_getElem? ht) args ha) (ok.2 t ht args ha))
  | appendUpdate p j h u hj hu =>
      have same : ((c.node p).updatePeers u).handlers = (c.node p).handlers := by
        cases u <;> rfl
      rw [same]
      exact .set (.single (.updateHandler j h u hj hu ((ok h hj).1 u hu)))
  | appendResume p j h hj hu =>
      exact settleAppend_changes bare (.head (.again j h hj hu) (Replica.resume_changes
        { c.node p with handlers := (c.node p).handlers.eraseIdx j } h hu
        ((bare p).handlers h (List.mem_of_getElem? hj)) ((ok h hj).2 hu)))
  | appendReturn r k reply now t args _ _ _ _ =>
      exact .set (Changes.updateAppendThread (Replica.appendReply_changes ok _ _ _ _ _ _ _) (bare r)
        k fun _ => rfl)
  | appendFail r k t _ _ => exact .set (Changes.updateAppendThread .refl (bare r) k fun _ => rfl)
  | executer r status => exact .set (Replica.executer_changes _ _ ok)
  | clientGet r key => exact .set (.single (.client _ rfl))
  | clientPut r key value => exact .set (.single (.client _ rfl))
  | addServer r args => exact .set (Replica.addServer_changes _ _ ok)
  | removeServer r serverId => exact .set (Replica.removeServer_changes _ _ ok)
  | callStep r j now call p hc hp =>
      exact .set (Replica.advance_changes hc (ok call hc).1 (ok call hc).2.1 (ok call hc).2.2 hp)

/-- The replica whose thread makes the step, or that serves the request. -/
def server (c : Cluster) : Action → Int
  | .voteDeliver r k _ => ((c.node r).voteThreads[k]?.map VoteThread.peer).getD r
  | .appendDeliver r k _ => ((c.node r).appendThreads[k]?.map AppendThread.peer).getD r
  | a => a.replica

/-- Another replica does not change, but for the replies its threads get. -/
theorem Transition.elsewhere (tr : Transition c a c') {q : Int} (other : q ≠ c.server a) :
    ∃ vs as, c'.node q = { c.node q with voteThreads := vs, appendThreads := as } := by
  have set {r : Int} {x : Replica} (ne : q ≠ r) : (c.set r x).node q = c.node q :=
    Function.update_of_ne ne _ _
  have pushVote {d : Cluster} {k : ℕ} {r : Int} {ret : RequestVoteRet} (h : d.node q = c.node q) :
      ∃ vs as, (d.pushVoteReply r k ret).node q =
        { c.node q with voteThreads := vs, appendThreads := as } := by
    by_cases e : q = r
    · subst e
      exact ⟨_, _, (Function.update_self _ _ _).trans
        (congrArg (fun y : Replica => y.updateVoteThread k _) h)⟩
    · exact ⟨_, _, (Function.update_of_ne e _ _).trans h⟩
  have settle {p owner : Int} {k : ℕ} {args : AppendEntriesParams} {x : Replica}
      {outcome : Replica.AppendOutcome} (ne : q ≠ p) :
      ∃ vs as, (c.settleAppend p owner k args x outcome).node q =
        { c.node q with voteThreads := vs, appendThreads := as } := by
    cases outcome with
    | suspended u e rest => exact ⟨_, _, set ne⟩
    | replied ret =>
        by_cases e : q = owner
        · subst e
          exact ⟨_, _, (Function.update_self _ _ _).trans
            (congrArg (fun y : Replica => y.updateAppendThread k _) (set ne))⟩
        · exact ⟨_, _, (Function.update_of_ne e _ _).trans (set ne)⟩
  cases tr with
  | voteDeliver r k now t args ht _ _ =>
      simp only [server, ht, Option.map_some, Option.getD_some] at other
      exact pushVote (set other)
  | appendDeliver r k now t args ht _ _ =>
      simp only [server, ht, Option.map_some, Option.getD_some] at other
      exact settle other
  | appendResume p j h _ _ => exact settle other
  | _ => exact ⟨_, _, set other⟩

theorem initialise_bare (id : Int) (config : IntMap ServerInfo) :
    (Replica.initialise id config).Bare := by
  have fresh := Replica.initialise_fresh id config
  refine ⟨fun t ht => ?_, fun x hx => ?_⟩
  · rw [fresh.appendThreads] at ht
    exact absurd ht List.not_mem_nil
  · rw [fresh.handlers] at hx
    exact absurd hx List.not_mem_nil

/-- No rule at all. -/
theorem abides_free (c : Cluster) (a : Action) : c.Abides {} a := by
  cases a <;> simp [Abides]

/-- No message carries a promise, in any run. -/
theorem bare {servers : List Int} {config : Int → IntMap ServerInfo}
    {h : List (Cluster × Action)} (run : Run step (launch servers config) h c) (q : Int) :
    (c.node q).Bare :=
  run.always (I := fun c => ∀ q, (c.node q).Bare) (fun q => initialise_bare q (config q))
    (fun c a _ bare hs q => (bare q).changes
      ((Transition.of_step hs).2.changes bare (c.abides_free a) q)) q

/-- The invariant rule: what every change of a replica preserves holds of all
replicas in every state. -/
theorem replicas_invariant {I : Int → Replica → Prop} {servers : List Int}
    {config : Int → IntMap ServerInfo} {h : List (Cluster × Action)}
    (run : Run step (launch servers config) h c) (ok : Meets (Abides R) h)
    (init : ∀ q, I q (.initialise q (config q)))
    (preserved : ∀ q r r', I q r → Replica.Change R r r' → I q r') (q : Int) :
    I q (c.node q) := by
  refine (run.stateInvariant (I := fun c => ∀ q, (c.node q).Bare ∧ I q (c.node q)) ok
    (fun q => ⟨initialise_bare q (config q), init q⟩) (fun c a c' hi ok hs q => ?_) q).2
  have moved := (Transition.of_step hs).2.changes (fun q => (hi q).1) ok q
  exact ⟨(hi q).1.changes moved, Changes.preserves moved (preserved q) (hi q).2⟩

end Cluster
end OhMyDb
