import OhMyDb.Db.Ledger
import OhMyDb.Raft.Stepwise

/-!
Each step of the cluster moves the ledger of every replica in the ways a ledger
can move. The functions come first, each with what it does to the ledger.
-/

namespace OhMyDb
open Function (update)

namespace Replica
variable {r : Replica} {D : Ledger.Discipline}

/-- Other events may be recorded. -/
theorem executions_record (es : List Event) {r' : Replica}
    (other : ∀ e ∈ es, e.execution = none) (hist : r'.hist = es ++ r.hist) :
    r'.executions = r.executions := by
  rw [executions, hist, List.filterMap_append, List.filterMap_eq_nil_iff.mpr other]
  rfl

/-! The log. -/

@[simp] theorem pushLog_ledger (r : Replica) (e : LogEntry) :
    (r.pushLog e).ledger = { r.ledger with items := r.ledger.items ++ [e] } := rfl

@[simp] theorem applyConfig_ledger (r : Replica) (command : Command) :
    (r.applyConfig command).1.ledger = r.ledger := by
  cases command <;> rfl

@[simp] theorem updatePeers_ledger (r : Replica) (u : PeerUpdate) :
    (r.updatePeers u).ledger = r.ledger := by
  cases u <;> rfl

@[simp] theorem persistLogs_ledger (r : Replica) : r.persistLogs.ledger = r.ledger := by
  simp [ledger, persistLogs, executions]

@[simp] theorem checkIndex_ledger (r : Replica) (e : AppendLogEntry) :
    (r.checkIndex e).ledger = r.ledger := by
  unfold checkIndex
  split <;> rfl

theorem truncate_ledger (r : Replica) (n : Nat) :
    (r.truncate n).ledger = { r.ledger with
      items := r.ledger.items.take n
      promises :=
        (r.ledger.items.drop n).foldl (fun ps e => e.op.abort ps) r.ledger.promises } := by
  have same : (r.truncate n).executions = r.executions := by
    refine executions_record ((r.state.logs.items.drop n).filterMap
      fun e => e.op.promiseHandle.map Event.tookPromise).reverse ?_ rfl
    intro e he
    simp only [List.mem_reverse, List.mem_filterMap, Option.map_eq_some_iff] at he
    obtain ⟨_, _, _, _, rfl⟩ := he
    rfl
  simp only [ledger, same]
  simp [truncate]

/-- The append loop of a leader pushes operations it was given, in a row, and
leaves others of them for later. -/
theorem leaderAppendLoop_ledger (ops : List RaftOp) (r : Replica) :
    ∃ es, (leaderAppendLoop ops r).1.ledger = { r.ledger with items := r.ledger.items ++ es } ∧
      (∀ e ∈ es, e.op ∈ ops) ∧ ∀ p ∈ (leaderAppendLoop ops r).2, ∀ op ∈ p.2, op ∈ ops := by
  induction ops generalizing r with
  | nil => exact ⟨[], by simp [leaderAppendLoop], by simp, by simp [leaderAppendLoop]⟩
  | cons op ops ih =>
      have first : ((r.pushLog ⟨r.state.currentTerm, op⟩).applyConfig op.command).1.ledger =
          { r.ledger with items := r.ledger.items ++ [⟨r.state.currentTerm, op⟩] } := by simp
      unfold leaderAppendLoop
      split
      · next x u he =>
        rw [he] at first
        refine ⟨[⟨r.state.currentTerm, op⟩], first, by simp, ?_⟩
        rintro p ⟨⟩ op' h'
        exact List.mem_cons_of_mem _ h'
      · next x he =>
        rw [he] at first
        obtain ⟨es, eq, sub, rest⟩ := ih x
        refine ⟨⟨r.state.currentTerm, op⟩ :: es, ?_, ?_, ?_⟩
        · rw [eq, first]
          simp
        · intro e h
          rcases List.mem_cons.mp h with rfl | h
          · exact List.mem_cons_self
          · exact List.mem_cons_of_mem _ (sub e h)
        · exact fun p hp op' h' => List.mem_cons_of_mem _ (rest p hp op' h')

theorem leaderAppend_ledger (r : Replica) (saved : Int) (ops : List RaftOp) :
    ∃ es rest, (r.leaderAppend saved ops).ledger =
        { r.ledger with appending := rest, items := r.ledger.items ++ es } ∧
      (∀ op ∈ rest, op ∈ ops) ∧ ∀ e ∈ es, e.op ∈ ops := by
  obtain ⟨es, eq, sub, left⟩ := leaderAppendLoop_ledger ops r
  unfold leaderAppend
  split
  · next x u rest he =>
    rw [he] at eq left
    refine ⟨es, rest, ?_, left _ rfl, sub⟩
    exact congrArg (fun l : Ledger => { l with appending := rest }) eq
  · next x he =>
    rw [he] at eq
    refine ⟨es, [], ?_, by simp, sub⟩
    have eq' := (persistLogs_ledger x).trans eq
    exact congrArg (fun l : Ledger => { l with appending := [] }) eq'

/-- The append loop of `AppendEntries` pushes entries of the message. -/
theorem appendLoop_ledger (es : List AppendLogEntry) (r : Replica) :
    ∃ items, (appendLoop es r).1.ledger = { r.ledger with items := r.ledger.items ++ items } ∧
      (∀ e ∈ items, ∃ x ∈ es, e.op = x.op) ∧
      ∀ p ∈ (appendLoop es r).2, ∀ x ∈ p.2.2, x ∈ es := by
  induction es generalizing r with
  | nil => exact ⟨[], by simp [appendLoop], by simp, by simp [appendLoop]⟩
  | cons e es ih =>
      have first : ((r.pushLog ⟨e.term, e.op⟩).applyConfig e.op.command).1.ledger =
          { r.ledger with items := r.ledger.items ++ [⟨e.term, e.op⟩] } := by simp
      unfold appendLoop
      split
      · next x u he =>
        rw [he] at first
        refine ⟨[⟨e.term, e.op⟩], first, by simp, ?_⟩
        rintro p ⟨⟩ y hy
        exact List.mem_cons_of_mem _ hy
      · next x he =>
        rw [he] at first
        obtain ⟨items, eq, sub, rest⟩ := ih (x.checkIndex e)
        refine ⟨⟨e.term, e.op⟩ :: items, ?_, ?_, ?_⟩
        · rw [eq, checkIndex_ledger, first]
          simp
        · intro i h
          rcases List.mem_cons.mp h with rfl | h
          · exact ⟨e, List.mem_cons_self, rfl⟩
          · obtain ⟨y, hy, eq⟩ := sub i h
            exact ⟨y, List.mem_cons_of_mem _ hy, eq⟩
        · exact fun p hp y hy => List.mem_cons_of_mem _ (rest p hp y hy)

/-! Committing. -/

theorem queueCommitted_ledger (r : Replica) :
    r.queueCommitted.ledger = { r.ledger with
      lastApplied := r.state.commitIndex
      committed := r.ledger.committed ++ r.ledger.newly r.state.commitIndex } := by
  have same : r.queueCommitted.executions = r.executions := by
    refine executions_record ((newlyCommitted r.state).map
      fun p => .pushedOut p.1 p.2).reverse ?_ rfl
    intro e he
    obtain ⟨_, _, rfl⟩ := List.mem_map.mp (List.mem_reverse.mp he)
    rfl
  have queued : (newlyCommitted r.state).map (·.2) = r.ledger.newly r.state.commitIndex := by
    rw [newlyCommitted, Ledger.newly, List.map_filterMap]
    refine List.filterMap_congr fun j _ => ?_
    change _ = if 0 ≤ r.state.lastApplied + 1 + (j : Int) then
      r.state.logs.items[(r.state.lastApplied + 1 + j).toNat]?.map (·.op) else none
    unfold LogVector.at?
    split
    · rw [Option.map_map]
      rfl
    · rfl
  rw [← queued]
  simp only [ledger, same]
  simp [queueCommitted]

theorem followCommit_ledger (r : Replica) (leaderCommit : Int) :
    Ledger.Steps D r.ledger (r.followCommit leaderCommit).ledger := by
  unfold followCommit
  split
  · next later =>
    rw [queueCommitted_ledger]
    refine .single (.commit (min leaderCommit (r.state.logs.size - 1)) ?_ ?_) <;>
      simp only [ledger, LogVector.size] <;> omega
  · exact .refl

theorem appendReply_ledger (r : Replica) (id saved nextIndex : Int) (n : Nat)
    (reply : AppendEntriesRet) (now : Int) :
    Ledger.Steps D r.ledger (r.appendReply id saved nextIndex n reply now).ledger := by
  refine appendReply_elim r id saved nextIndex n reply now ?down ?idle ?refused ?matched ?committed
  case down | idle | refused | matched =>
    intros
    exact .refl
  case committed =>
    rintro _ _ _ m i _ later inside _ rfl
    rw [queueCommitted_ledger]
    exact .single (.commit i (Or.inl later) inside)

/-! Serving `AppendEntries`. -/

/-- The entries an interrupted call has still to push. -/
def AppendOutcome.rest : AppendOutcome → List AppendLogEntry
  | .replied _ => []
  | .suspended _ _ rest => rest

theorem appendRest_ledger (r : Replica) (args : AppendEntriesParams) (es : List AppendLogEntry)
    (bare : ∀ e ∈ es, e.op.promiseHandle = none) :
    Ledger.Steps D r.ledger (r.appendRest args es).1.ledger ∧
      ∀ e ∈ (r.appendRest args es).2.rest, e ∈ es := by
  obtain ⟨items, eq, sub, rest⟩ := appendLoop_ledger es r
  have pushed : Ledger.Step D r.ledger (appendLoop es r).1.ledger := by
    rw [eq]
    refine .move r.ledger.queued r.ledger.appending items (fun _ => Or.inl) (fun _ => Or.inr) ?_
    intro e he
    obtain ⟨x, hx, same⟩ := sub e he
    exact Or.inr (Or.inr (Or.inl (same ▸ bare x hx)))
  unfold appendRest
  split
  · next x u e left he =>
    rw [he] at pushed rest
    exact ⟨.single pushed, rest _ rfl⟩
  · next x he =>
    rw [he] at pushed
    refine ⟨.head pushed ?_, fun e h => absurd h List.not_mem_nil⟩
    rw [← persistLogs_ledger]
    exact followCommit_ledger _ _

theorem mergeEntries_ledger (r : Replica) (args : AppendEntriesParams)
    (bare : ∀ e ∈ args.entries, e.op.promiseHandle = none)
    (ok : newEntriesIndex r.state.logs args < args.entries.length →
      D.cut r.ledger (logInsertIndex r.state.logs args)) :
    Ledger.Steps D r.ledger (r.mergeEntries args).1.ledger ∧
      ∀ e ∈ (r.mergeEntries args).2.rest, e ∈ args.entries := by
  unfold mergeEntries
  split
  · next behind =>
    obtain ⟨steps, rest⟩ := appendRest_ledger (D := D)
      (r.truncate (logInsertIndex r.state.logs args)) args
      (args.entries.drop (newEntriesIndex r.state.logs args))
      fun e he => bare e (List.mem_of_mem_drop he)
    refine ⟨.head ?_ steps, fun e he => List.mem_of_mem_drop (rest e he)⟩
    rw [truncate_ledger]
    exact .cut _ (ok behind)
  · exact ⟨followCommit_ledger _ _, fun e h => absurd h List.not_mem_nil⟩

theorem observeLeader_ledger (r : Replica) (args : AppendEntriesParams) (now : Int) :
    ({ r with state := r.observeLeader args now } : Replica).ledger = r.ledger := by
  simp only [observeLeader]
  split_ifs <;> rfl

theorem appendEntries_ledger (r : Replica) (args : AppendEntriesParams) (now : Int)
    (bare : ∀ e ∈ args.entries, e.op.promiseHandle = none)
    (ok : ∀ n ∈ r.cut args now, D.cut r.ledger n) :
    Ledger.Steps D r.ledger (r.appendEntries args now).1.ledger ∧
      ∀ e ∈ (r.appendEntries args now).2.rest, e ∈ args.entries := by
  have same := r.observeLeader_ledger args now
  by_cases alive : r.state.role = .dead
  · simp only [appendEntries, if_pos alive]
    exact ⟨.refl, fun e h => absurd h List.not_mem_nil⟩
  · simp only [appendEntries, if_neg alive]
    split
    · next accepted =>
      have merged := mergeEntries_ledger (D := D)
        { r with state := r.observeLeader args now } args bare fun behind => by
          rw [same]
          simp only [observeLeader_logs] at behind accepted ⊢
          exact ok _ (if_pos ⟨alive, accepted.1, accepted.2, behind⟩)
      rwa [same] at merged
    · rw [same]
      exact ⟨.refl, fun e h => absurd h List.not_mem_nil⟩

/-! Executing and serving calls. -/

theorem executer_ledger (r : Replica) (status : Bool)
    (ok : ∀ op ∈ r.execIn.head?, D.execute r.ledger op status) :
    Ledger.Steps D r.ledger (r.executer status).ledger := by
  unfold executer
  split
  · next empty =>
    have same : ({ r with execIn := r.raftOut, raftOut := [] } : Replica).ledger = r.ledger := by
      simp [ledger, empty, executions]
    rw [same]
  · next op rest next_ =>
    refine .single ?_
    have executed := Ledger.Step.execute (D := D) (l := r.ledger) op (rest ++ r.raftOut) status
      (by simp [ledger, next_]) (ok op (by simp [next_]))
    have record : ∀ x ∈ op.promiseHandle.toList.map Event.tookPromise, x.execution = none := by
      simp [Event.execution]
    have same : (executions { r with
        execIn := rest
        db := (op.run r.db status).1
        promises := op.resolve r.promises (op.run r.db status).2
        hist := (op.promiseHandle.toList.map .tookPromise) ++
          .executed op (op.run r.db status).2 :: r.hist }) =
        r.executions ++ [(op, (op.run r.db status).2)] := by
      simp only [executions, List.filterMap_append, List.filterMap_eq_nil_iff.mpr record]
      simp [Event.execution]
    simp only [ledger, same] at executed ⊢
    exact executed

theorem clientCall_ledger (r : Replica) (command : Command) :
    Ledger.Step D r.ledger (r.clientCall command).ledger := .submit command

theorem addServer_ledger (r : Replica) (args : AddServerParams) :
    Ledger.Step D r.ledger (r.addServer args).ledger := by
  unfold addServer
  split
  · exact .start _ rfl
  · split <;> exact .start _ rfl

theorem removeServer_ledger (r : Replica) (serverId : Int) :
    Ledger.Step D r.ledger (r.removeServer serverId).ledger := by
  unfold removeServer
  split
  · exact .start _ rfl
  · split <;> exact .start _ rfl

/-- An operation joins the queue while its call goes on. -/
theorem pushDispatch_ledger {call call' : Call} {j : Nat} {op : RaftOp}
    (hc : r.calls[j]? = some call) (owns : r.ledger.Owns op)
    (same : call'.submission = call.submission) (silent : ∀ l : Ledger, l.Answers call') :
    Ledger.Steps D r.ledger
      ({ r.pushDispatch op with calls := r.calls.set j call' } : Replica).ledger := by
  refine .tail (.single (.move (r.dispatchOut ++ [op] ++ r.raftIn) r.ledger.appending [] ?_
    (fun _ => Or.inr) (by simp))) ?_
  · intro x hx
    simp only [List.mem_append, List.mem_singleton] at hx
    rcases hx with (h | rfl) | h
    · exact Or.inl (List.mem_append_left _ h)
    · exact Or.inr owns
    · exact Or.inl (List.mem_append_right _ h)
  · have next := Ledger.Step.advance (D := D)
      (l := { r.ledger with
        queued := r.dispatchOut ++ [op] ++ r.raftIn, items := r.ledger.items ++ [] })
      j call call' hc same (silent _)
    simpa [ledger, pushDispatch, executions] using next

theorem advance_ledger {now : Int} {j : Nat} {call : Call} {p : Replica × Call}
    (hc : r.calls[j]? = some call) (h : r.advance now call = some p) :
    Ledger.Steps D r.ledger ({ p.1 with calls := p.1.calls.set j p.2 } : Replica).ledger := by
  have mem : call ∈ r.calls := List.mem_of_getElem? hc
  -- a step that leaves the ledger but for the call
  have goesOn {call' : Call} (same : call'.submission = call.submission)
      (answers : r.ledger.Answers call') :
      Ledger.Steps D r.ledger { r.ledger with calls := r.calls.set j call' } :=
    .single (.advance j call call' hc same answers)
  cases call with
  | submitting op it =>
      simp only [advance] at h
      split at h <;> cases h <;> exact goesOn rfl True.intro
  | queueing op it =>
      cases h
      exact pushDispatch_ledger hc (Or.inr ⟨it, List.mem_filterMap.mpr ⟨_, mem, rfl⟩⟩) rfl
        fun _ => True.intro
  | refused op it =>
      cases h
      exact .head (.discard it) (.single (.advance j _ _ hc rfl (Or.inl rfl)))
  | waiting op it =>
      simp only [advance] at h
      split at h
      · next res hres =>
        obtain ⟨ret, answer, rfl⟩ := Option.map_eq_some_iff.mp h
        obtain ⟨x, hx, rfl⟩ := Option.map_eq_some_iff.mp hres
        obtain rfl : x.1 = it := by simpa using List.find?_some hx
        exact goesOn rfl (Or.inr ⟨x.2, List.mem_of_find?_eq_some hx, answer⟩)
      · cases h
  | addSubmit info prev =>
      cases h
      exact pushDispatch_ledger hc (Or.inl rfl) rfl fun _ => True.intro
  | removeSubmit serverId prev =>
      cases h
      exact pushDispatch_ledger hc (Or.inl rfl) rfl fun _ => True.intro
  | addWaitPrev info n =>
      simp only [advance] at h
      split at h
      · cases h
        exact goesOn rfl True.intro
      · split at h <;> cases h <;> exact goesOn rfl True.intro
  | removeWaitPrev serverId n =>
      simp only [advance] at h
      split at h
      · cases h
        exact goesOn rfl True.intro
      · split at h <;> cases h <;> exact goesOn rfl True.intro
  | addWaitCommit info prev n =>
      simp only [advance] at h
      split at h
      · cases h
        exact goesOn rfl True.intro
      · split at h
        · cases h
          exact goesOn rfl True.intro
        · split at h <;> cases h <;> exact goesOn rfl True.intro
  | removeWaitCommit serverId prev n =>
      simp only [advance] at h
      split at h
      · cases h
        split <;> exact goesOn rfl True.intro
      · split at h <;> cases h <;> exact goesOn rfl True.intro
  | returned op it ret => cases h
  | addReturned ret => cases h
  | removeReturned ret => cases h

/-! Elections and the threads. -/

theorem electionTick_ledger (r : Replica) (now timeout : Int) :
    (r.electionTick now timeout).ledger = r.ledger := by
  unfold electionTick
  split <;> rfl

theorem requestVote_ledger (r : Replica) (args : RequestVoteParams) (now : Int) :
    (r.requestVote args now).1.ledger = r.ledger := by
  simp only [requestVote, observeTerm]
  split_ifs <;> rfl

theorem voteReply_ledger (r : Replica) (saved : Int) (reply : RequestVoteRet) (now : Int) :
    (r.voteReply saved reply now).ledger = r.ledger := by
  simp only [voteReply]
  split_ifs <;> rfl

theorem raftImpl_ledger (bare : r.ledger.Bare) : Ledger.Steps D r.ledger r.raftImpl.ledger := by
  unfold raftImpl
  cases thread : r.raftThread with
  | top =>
      refine .single ?_
      have moved := Ledger.Step.move (D := D) (l := r.ledger) (r.raftIn ++ r.dispatchOut)
        r.ledger.appending [] (fun op h => Or.inl ?_) (fun _ => Or.inr) (by simp)
      · simpa [ledger, thread, RaftThread.rest, executions] using moved
      · exact (List.mem_append.mp h).elim (List.mem_append_right _) (List.mem_append_left _)
  | swapped =>
      have here : r.ledger.appending = [] := by simp [ledger, thread, RaftThread.rest]
      have same (t : RaftThread) (h : t.rest = []) :
          ({ r with raftThread := t } : Replica).ledger = r.ledger :=
        congrArg (fun ops => { r.ledger with appending := ops }) (h.trans here.symm)
      simp only [same (if r.state.role = .leader then .isLeader else .sleeping)
        (by split <;> rfl)]
      exact .refl
  | isLeader =>
      obtain ⟨es, rest, eq, left, sub⟩ := r.leaderAppend_ledger r.state.currentTerm r.raftIn
      simp only [eq]
      exact .single (.move r.ledger.queued rest es (fun _ => Or.inl)
        (fun op h => Or.inl (List.mem_append_right _ (left op h)))
        fun e h => Or.inl (List.mem_append_right _ (sub e h)))
  | updatingPeers saved update rest =>
      have here : r.ledger.appending = rest := by simp [ledger, thread, RaftThread.rest]
      have same : ({ r.updatePeers update with raftThread := .relocking saved rest } :
          Replica).ledger = r.ledger := by
        refine Eq.trans (b := { (r.updatePeers update).ledger with appending := rest }) rfl ?_
        rw [updatePeers_ledger, ← here]
      simp only [same]
      exact .refl
  | relocking saved rest =>
      obtain ⟨es, left, eq, sub, sub'⟩ := r.leaderAppend_ledger saved rest
      have here : r.ledger.appending = rest := by simp [ledger, thread, RaftThread.rest]
      simp only [eq]
      exact .single (.move r.ledger.queued left es (fun _ => Or.inl)
        (fun op h => Or.inr (here ▸ sub op h)) fun e h => Or.inr (Or.inl (here ▸ sub' e h)))
  | spawning saved =>
      refine .single ?_
      have sent := Ledger.Step.send (D := D) (l := r.ledger) (r.appendThreads ++
        r.peers.keys.map fun id => { peer := id, savedCurrentTerm := saved }) r.handlers
        ⟨?_, bare.handlers⟩
      · simpa [ledger, thread, RaftThread.rest, executions] using sent
      · intro t ht
        rcases List.mem_append.mp ht with ht | ht
        · exact bare.threads t ht
        · obtain ⟨_, _, rfl⟩ := List.mem_map.mp ht
          exact fun args h => absurd h (by simp)
  | sleeping =>
      refine .single ?_
      have moved := Ledger.Step.move (D := D) (l := r.ledger) r.dispatchOut
        r.ledger.appending [] (fun op h => Or.inl (List.mem_append_left _ h))
        (fun _ => Or.inr) (by simp)
      simpa [ledger, thread, RaftThread.rest, executions] using moved

end Replica
end OhMyDb
