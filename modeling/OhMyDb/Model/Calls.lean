import OhMyDb.Model.Replica

/-!
The calls a replica serves besides the two Raft RPCs: `ReplicaManager::get` and
`put`, and `RaftManager::AddServer` and `RemoveServer`. A call is a thread of its
own; each step below is what it does under one acquisition of a mutex.
-/

namespace OhMyDb
namespace Replica

def startCall (r : Replica) (call : Call) : Replica :=
  { r with calls := r.calls ++ [call] }

/-- `ReplicaManager::get` and `put` up to the call of `submit`. -/
def clientCall (r : Replica) (command : Command) : Replica :=
  let (ps, it) := r.promises.insert
  { r with promises := ps }.startCall
    (.submitting { command := command, promiseHandle := some it } it)

/-- The result `ReplicaManager::get` / `put` build from the future. The other
alternative of the variant would be a `bad_variant_access`. -/
def answer : Command → Res → Option Ret
  | .get _, .value (some v) => some { errorCode := .ok, leaderAddr := "", value := v }
  | .get _, .value none => some { errorCode := .keyNotFound, leaderAddr := "", value := -1 }
  | .put _ _, .flag b =>
      some { errorCode := .ok, leaderAddr := "", value := if b then 1 else 0 }
  | _, _ => none

/-- The value `get` and `put` return with `NOT_LEADER`. -/
def refusedValue : Command → Int
  | .get _ => -1
  | _ => 0

/-- `getLastKnownLeaderRaftAddr`, with the replica it leaves behind. -/
def raftAddr (r : Replica) : String × Replica :=
  (r.state.getLastKnownLeaderRaftAddr.1,
    { r with state := r.state.getLastKnownLeaderRaftAddr.2 })

/-- The locked checks `AddServer` begins with. -/
def addServer (r : Replica) (args : AddServerParams) : Replica :=
  if r.state.role ≠ .leader then
    r.raftAddr.2.startCall
      (.addReturned { errorCode := .notLeader, leaderAddr := r.raftAddr.1 })
  else if args.serverId ∈ r.state.clusterConfig then
    r.raftAddr.2.startCall
      (.addReturned { errorCode := .serverExists, leaderAddr := r.raftAddr.1 })
  else
    r.startCall (.addWaitPrev
      { id := args.serverId, ip := args.ip, raftPort := args.raftPort,
        dbPort := args.dbPort, name := args.name } 0)

/-- The locked checks `RemoveServer` begins with. -/
def removeServer (r : Replica) (serverId : Int) : Replica :=
  if r.state.role ≠ .leader then
    r.raftAddr.2.startCall
      (.removeReturned { errorCode := .notLeader, leaderAddr := r.raftAddr.1 })
  else if serverId ∉ r.state.clusterConfig then
    r.raftAddr.2.startCall
      (.removeReturned { errorCode := .serverNotFound, leaderAddr := r.raftAddr.1 })
  else r.startCall (.removeWaitPrev serverId 0)

/-- The wait for the previous configuration change ends. -/
def prevCommitted (s : RaftState) : Prop :=
  s.lastConfigChangeIndex = -1 ∨ s.lastConfigChangeIndex ≤ s.commitIndex

instance (s : RaftState) : Decidable (prevCommitted s) := inferInstanceAs (Decidable (_ ∨ _))

/-- The wait for the configuration change of this call ends. -/
def currentCommitted (s : RaftState) (prevConfigChangeIndex : Int) : Prop :=
  prevConfigChangeIndex < s.lastConfigChangeIndex ∧ s.lastConfigChangeIndex ≤ s.commitIndex

instance (s : RaftState) (i : Int) : Decidable (currentCommitted s i) :=
  inferInstanceAs (Decidable (_ ∧ _))

def pushDispatch (r : Replica) (op : RaftOp) : Replica :=
  { r with dispatchOut := r.dispatchOut ++ [op] }

/-- One step of a call: the replica after it, and where the call then stands.
A call that waits for its promise, or has returned, makes no step. -/
def advance (r : Replica) (now : Int) : Call → Option (Replica × Call)
  | .submitting op it =>
      if op.command.isClient = true ∧ r.state.role ≠ .leader then some (r, .refused op it)
      else some (r, .queueing op it)
  | .queueing op it => some (r.pushDispatch op, .waiting op it)
  | .refused op it =>
      let (addr, s) := r.state.getLastKnownLeaderDBAddr
      some
        ({ r with
            promises := r.promises.getAndRemove it
            state := s
            hist := .tookPromise it :: r.hist },
          .returned op it
            { errorCode := .notLeader, leaderAddr := addr, value := refusedValue op.command })
  | .waiting op it =>
      match r.promises.future it with
      | some res => (answer op.command res).map fun ret => (r, .returned op it ret)
      | none => none
  | .addWaitPrev info retryCount =>
      if prevCommitted r.state then some (r, .addSubmit info r.state.lastConfigChangeIndex)
      else if retryCount + 1 = RAFT_MEMBERSHIP_WAIT_ITERS then
        some (r.raftAddr.2, .addReturned
          { errorCode := .prevNotCommittedTimeout, leaderAddr := r.raftAddr.1 })
      else some (r, .addWaitPrev info (retryCount + 1))
  | .addSubmit info prev =>
      some (r.pushDispatch { command := .addServer info, promiseHandle := none },
        .addWaitCommit info prev 0)
  | .addWaitCommit info prev retryCount =>
      if r.state.role ≠ .leader then
        some (r.raftAddr.2, .addReturned
          { errorCode := .notLeader, leaderAddr := r.raftAddr.1 })
      else if currentCommitted r.state prev then
        some (r, .addReturned { errorCode := .ok, leaderAddr := "" })
      else if retryCount + 1 = RAFT_MEMBERSHIP_WAIT_ITERS then
        some (r.raftAddr.2, .addReturned
          { errorCode := .curNotCommittedTimeout, leaderAddr := r.raftAddr.1 })
      else some (r, .addWaitCommit info prev (retryCount + 1))
  | .removeWaitPrev serverId retryCount =>
      if prevCommitted r.state then some (r, .removeSubmit serverId r.state.lastConfigChangeIndex)
      else if retryCount + 1 = RAFT_MEMBERSHIP_WAIT_ITERS then
        some (r.raftAddr.2, .removeReturned
          { errorCode := .prevNotCommittedTimeout, leaderAddr := r.raftAddr.1 })
      else some (r, .removeWaitPrev serverId (retryCount + 1))
  | .removeSubmit serverId prev =>
      some (r.pushDispatch { command := .removeServer serverId, promiseHandle := none },
        .removeWaitCommit serverId prev 0)
  | .removeWaitCommit serverId prev retryCount =>
      if currentCommitted r.state prev then
        -- a leader that has removed itself steps down, to term -1
        some (if serverId = r.id then { r with state := r.state.becomeFollower (-1) now } else r,
          .removeReturned { errorCode := .ok, leaderAddr := "" })
      else if retryCount + 1 = RAFT_MEMBERSHIP_WAIT_ITERS then
        some (r.raftAddr.2, .removeReturned
          { errorCode := .curNotCommittedTimeout, leaderAddr := r.raftAddr.1 })
      else some (r, .removeWaitCommit serverId prev (retryCount + 1))
  | .returned _ _ _ | .addReturned _ | .removeReturned _ => none

/-- Call `j` makes a step. -/
def callStep (r : Replica) (j : Nat) (now : Int) : Option Replica :=
  match r.calls[j]? with
  | none => none
  | some call =>
      (r.advance now call).map fun p => { p.1 with calls := p.1.calls.set j p.2 }

end Replica
end OhMyDb
