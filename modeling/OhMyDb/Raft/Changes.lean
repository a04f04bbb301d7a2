import OhMyDb.Lib.Modify
import OhMyDb.Raft.Frame

/-!
A replica changes in a few ways only, one lock section being made up of several of
them. Invariants of a single replica are shown change by change; what a group of
runs is restricted to is a parameter.
-/

namespace OhMyDb
open Relation (ReflTransGen)

namespace Command

/-- `ADD_SERVER` and `REMOVE_SERVER`. -/
def isConfig : Command → Bool
  | .addServer _ | .removeServer _ => true
  | .get _ | .put _ _ => false

/-- What `ApplyAddServer` / `ApplyRemoveServer` make of the configuration. -/
def configure : Command → IntMap ServerInfo → IntMap ServerInfo
  | .addServer info, config => config.insert info.id info
  | .removeServer serverId, config => config.erase serverId
  | .get _, config | .put _ _, config => config

/-- The call replica `id` makes with the mutex released. -/
def peerUpdate (id : Int) : Command → Option PeerUpdate
  | .addServer info => if id ≠ info.id then some (.addPeer info.id) else none
  | .removeServer serverId => if id ≠ serverId then some (.removePeer serverId) else none
  | .get _ | .put _ _ => none

end Command

/-- The part of the state that neither the log nor the membership is in. -/
structure Standing where
  currentTerm : Int
  votedFor : Int
  role : RaftRole
  electionResetEvent : Int
  lastKnownLeaderId : Int
  nextIndex : IntMap Int
  matchIndex : IntMap Int
  votesReceived : Int
  pStore : PersistentStore

namespace RaftState

def standing (s : RaftState) : Standing where
  currentTerm := s.currentTerm
  votedFor := s.votedFor
  role := s.role
  electionResetEvent := s.electionResetEvent
  lastKnownLeaderId := s.lastKnownLeaderId
  nextIndex := s.nextIndex
  matchIndex := s.matchIndex
  votesReceived := s.votesReceived
  pStore := s.pStore

def stand (s : RaftState) (x : Standing) : RaftState where
  currentTerm := x.currentTerm
  votedFor := x.votedFor
  logs := s.logs
  role := x.role
  electionResetEvent := x.electionResetEvent
  commitIndex := s.commitIndex
  lastApplied := s.lastApplied
  lastKnownLeaderId := x.lastKnownLeaderId
  clusterConfig := s.clusterConfig
  lastConfigChangeIndex := s.lastConfigChangeIndex
  nextIndex := x.nextIndex
  matchIndex := x.matchIndex
  votesReceived := x.votesReceived
  pStore := x.pStore

end RaftState

/-- The stage an `AddServer` or `RemoveServer` call is in, with
`prevConfigChangeIndex` where it has been read. -/
inductive MembershipStage where
  | waitPrev
  | submit (prevConfigChangeIndex : Int)
  | waitCommit (prevConfigChangeIndex : Int)
  deriving DecidableEq

namespace Call

/-- The change an `AddServer` or `RemoveServer` call is to make, until it returns. -/
def membership : Call → Option (Command × MembershipStage)
  | .addWaitPrev info _ => some (.addServer info, .waitPrev)
  | .addSubmit info prev => some (.addServer info, .submit prev)
  | .addWaitCommit info prev _ => some (.addServer info, .waitCommit prev)
  | .removeWaitPrev serverId _ => some (.removeServer serverId, .waitPrev)
  | .removeSubmit serverId prev => some (.removeServer serverId, .submit prev)
  | .removeWaitCommit serverId prev _ => some (.removeServer serverId, .waitCommit prev)
  | _ => none

/-- The operation of a GET or PUT and the promise it waits on. -/
def submission : Call → Option (RaftOp × Handle)
  | .submitting op it | .queueing op it | .refused op it | .waiting op it
  | .returned op it _ => some (op, it)
  | _ => none

/-- A step of a call that changes nothing but the call. -/
inductive Moves (s : RaftState) (ps : PromiseStore) : Call → Call → Prop where
  | accept (op : RaftOp) (it : Handle) : Moves s ps (.submitting op it) (.queueing op it)
  | refuse (op : RaftOp) (it : Handle) : Moves s ps (.submitting op it) (.refused op it)
  | answer (op : RaftOp) (it : Handle) (res : Res) (ret : Ret) : (it, res) ∈ ps.results →
      Replica.answer op.command res = some ret →
      Moves s ps (.waiting op it) (.returned op it ret)
  | wait {call call' : Call} (m : Command × MembershipStage) : call.membership = some m →
      call'.membership = some m → Moves s ps call call'
  | pass {call call' : Call} (command : Command) :
      call.membership = some (command, .waitPrev) → Replica.prevCommitted s →
      call'.membership = some (command, .submit s.lastConfigChangeIndex) → Moves s ps call call'
  | finish {call call' : Call} (m : Command × MembershipStage) : call.membership = some m →
      call'.membership = none → call'.submission = none → Moves s ps call call'

theorem submission_of_membership {call : Call} {m : Command × MembershipStage}
    (h : call.membership = some m) : call.submission = none := by
  cases call with
  | submitting | queueing | refused | waiting | returned => cases h
  | _ => rfl

theorem Moves.submission {s : RaftState} {ps : PromiseStore} {call call' : Call}
    (h : Moves s ps call call') : call'.submission = call.submission := by
  cases h with
  | wait m stage stage' =>
      rw [submission_of_membership stage, submission_of_membership stage']
  | pass command stage _ stage' =>
      rw [submission_of_membership stage, submission_of_membership stage']
  | finish m stage _ none => rw [submission_of_membership stage, none]
  | _ => rfl

end Call

namespace RaftThread

/-- The operations an interrupted append loop has still to push. -/
def rest : RaftThread → List RaftOp
  | .updatingPeers _ _ rest | .relocking _ rest => rest
  | _ => []

/-- The part of `raftIn_` that is still to be pushed. -/
def unpushed (raftIn : List RaftOp) : RaftThread → List RaftOp
  | .top | .swapped | .isLeader => raftIn
  | .updatingPeers _ _ rest | .relocking _ rest => rest
  | .spawning _ | .sleeping => []

/-- Where the append loop of a leader stands once it has pushed an operation. -/
def afterPush (saved : Int) (rest : List RaftOp) : Option PeerUpdate → RaftThread
  | some update => .updatingPeers saved update rest
  | none => .relocking saved rest

@[simp] theorem afterPush_unpushed (raftIn : List RaftOp) (saved : Int) (ops : List RaftOp)
    (u : Option PeerUpdate) : (afterPush saved ops u).unpushed raftIn = ops := by
  cases u <;> rfl

end RaftThread

/-- An event nothing but elections and commits is told by. -/
def Event.isRemark : Event → Bool
  | .voted _ _ | .becameLeader _ | .committed _ | .indexMismatch _ _ => true
  | .pushedOut _ _ | .executed _ _ | .tookPromise _ => false

namespace Replica

/-- An entry is pushed, and the configuration follows it. -/
def append (r : Replica) (e : LogEntry) : Replica :=
  { r with state := { r.state with
      logs := r.state.logs.pushBack e
      lastConfigChangeIndex :=
        if e.op.command.isConfig = true then r.state.logs.size else r.state.lastConfigChangeIndex
      clusterConfig := e.op.command.configure r.state.clusterConfig
      pStore :=
        if e.op.command.isConfig = true then
          { votedFor := r.state.votedFor, currentTerm := r.state.currentTerm }
        else r.state.pStore } }

theorem applyConfig_pushLog (r : Replica) (e : LogEntry) :
    (r.pushLog e).applyConfig e.op.command = (r.append e, e.op.command.peerUpdate r.id) := by
  have size : (r.state.logs.pushBack e).size - 1 = r.state.logs.size := by simp [LogVector.size]
  unfold applyConfig append
  split <;> next h =>
    simp only [h, pushLog, RaftState.persist, Command.isConfig, Command.configure,
      Command.peerUpdate, size, if_true, Bool.false_eq_true, if_false]
    try rfl

/-- The operations in `raftIn_` that are still to be pushed. -/
def unpushed (r : Replica) : List RaftOp := r.raftThread.unpushed r.raftIn

/-- No operation on its way to another replica has a promise. -/
structure Bare (r : Replica) : Prop where
  threads : ∀ t ∈ r.appendThreads, ∀ args ∈ t.args, ∀ e ∈ args.entries,
    e.op.promiseHandle = none
  handlers : ∀ h ∈ r.handlers, ∀ e ∈ h.rest, e.op.promiseHandle = none

/-- What runs may be restricted to. -/
structure Rules where
  stand : Prop := True
  rise : Replica → Prop := fun _ => True
  check : Replica → Prop := fun _ => True
  lead : Prop := True
  follow : List Call → AppendLogEntry → Prop := fun _ _ => True
  update : PeerUpdate → Replica → Prop := fun _ _ => True
  cut : Replica → ℕ → Prop := fun _ _ => True
  address : RaftState → Prop := fun _ => True
  call : Replica → Call → Prop := fun _ _ => True
  execute : Replica → RaftOp → Bool → Prop := fun _ _ _ => True

inductive Change (R : Rules) (r : Replica) : Replica → Prop where
  -- elections and the threads
  | stand (x : Standing) : R.stand → (x.role = .leader → r.state.role = .leader ∨ R.rise r) →
      Change R r { r with state := r.state.stand x }
  | elect (threads : List VoteThread) : Change R r { r with voteThreads := threads }
  | send (threads : List AppendThread) :
      (∀ t ∈ threads, ∀ args ∈ t.args, ∀ e ∈ args.entries, e.op.promiseHandle = none) →
      Change R r { r with appendThreads := threads }
  | record (e : Event) : e.isRemark = true → Change R r { r with hist := e :: r.hist }
  | address : R.address r.state →
      Change R r { r with state := { r.state with clusterConfig :=
        (r.state.clusterConfig.subscript r.state.lastKnownLeaderId .zero).2 } }
  -- the thread of `raftImpl`, whose append loop is taken entry by entry
  | swap : r.raftThread = .top →
      Change R r { r with
        dispatchOut := r.raftIn, raftIn := r.dispatchOut, raftThread := .swapped }
  | check : r.raftThread = .swapped → R.check r →
      Change R r { r with raftThread := if r.state.role = .leader then .isLeader else .sleeping }
  | begin : r.raftThread = .isLeader →
      Change R r { r with raftThread := .relocking r.state.currentTerm r.raftIn }
  | push (saved : Int) (op : RaftOp) (rest : List RaftOp) :
      r.raftThread = .relocking saved (op :: rest) → R.lead →
      Change R r { r.append ⟨r.state.currentTerm, op⟩ with
        raftThread := .afterPush saved rest (op.command.peerUpdate r.id) }
  | update (saved : Int) (u : PeerUpdate) (rest : List RaftOp) :
      r.raftThread = .updatingPeers saved u rest →
      R.update u { r.updatePeers u with raftThread := .relocking saved rest } →
      Change R r { r.updatePeers u with raftThread := .relocking saved rest }
  | finish (saved : Int) : r.raftThread = .relocking saved [] →
      Change R r { r.persistLogs with raftThread := .spawning saved }
  | spawn (saved : Int) : r.raftThread = .spawning saved →
      Change R r { r with raftThread := .sleeping }
  | clear : r.raftThread = .sleeping → Change R r { r with raftIn := [], raftThread := .top }
  -- `AppendEntries`, whose call is the last of the handlers while it runs
  | cut (n : ℕ) : R.cut r n → Change R r (r.truncate n)
  | enter (h : AppendHandler) : h.update = none →
      (∀ e ∈ h.rest, e.op.promiseHandle = none) →
      Change R r { r with handlers := r.handlers ++ [h] }
  | again (j : ℕ) (h : AppendHandler) : r.handlers[j]? = some h → h.update = none →
      Change R r { r with handlers := r.handlers.eraseIdx j ++ [h] }
  | follow (hs : List AppendHandler) (h : AppendHandler) (e : AppendLogEntry)
      (rest : List AppendLogEntry) : r.handlers = hs ++ [h] → h.update = none →
      h.rest = e :: rest → e.op.promiseHandle = none → R.follow r.calls e →
      Change R r { r.append ⟨e.term, e.op⟩ with
        handlers := hs ++ [{ h with
          current := e, rest := rest, update := e.op.command.peerUpdate r.id }] }
  | updateHandler (j : ℕ) (h : AppendHandler) (u : PeerUpdate) : r.handlers[j]? = some h →
      h.update = some u →
      R.update u { r.updatePeers u with handlers := r.handlers.set j { h with update := none } } →
      Change R r { r.updatePeers u with handlers := r.handlers.set j { h with update := none } }
  | leave (hs : List AppendHandler) (h : AppendHandler) : r.handlers = hs ++ [h] →
      h.update = none → h.rest = [] → Change R r { r.persistLogs with handlers := hs }
  -- committing and executing
  | commit (i : Int) : (r.state.commitIndex < i ∨ i = r.state.logs.size - 1) →
      i < r.state.logs.size →
      Change R r { r with state := { r.state with commitIndex := i } }.queueCommitted
  | fetch : r.execIn = [] → Change R r { r with execIn := r.raftOut, raftOut := [] }
  | execute (op : RaftOp) (rest : List RaftOp) (ok : Bool) : r.execIn = op :: rest →
      R.execute r op ok →
      Change R r { r with
        execIn := rest
        db := (op.run r.db ok).1
        promises := op.resolve r.promises (op.run r.db ok).2
        hist := (op.promiseHandle.toList.map .tookPromise) ++
          .executed op (op.run r.db ok).2 :: r.hist }
  -- the calls
  | client (command : Command) : command.isClient = true → Change R r (r.clientCall command)
  | start (call : Call) : call.submission = none →
      (∀ m ∈ call.membership, m.2 = .waitPrev) → Change R r (r.startCall call)
  | call (j : ℕ) (call call' : Call) : r.calls[j]? = some call → R.call r call →
      call.Moves r.state r.promises call' → Change R r { r with calls := r.calls.set j call' }
  | queue (j : ℕ) (op : RaftOp) (it : Handle) : r.calls[j]? = some (.queueing op it) →
      R.call r (.queueing op it) →
      Change R r { r.pushDispatch op with calls := r.calls.set j (.waiting op it) }
  | discard (j : ℕ) (op : RaftOp) (it : Handle) (ret : Ret) :
      r.calls[j]? = some (.refused op it) → ret.errorCode = .notLeader →
      Change R r { r with
        promises := r.promises.getAndRemove it
        hist := .tookPromise it :: r.hist
        calls := r.calls.set j (.returned op it ret) }
  | submit (j : ℕ) (call call' : Call) (command : Command) (prev : Int) :
      r.calls[j]? = some call → R.call r call →
      call.membership = some (command, .submit prev) →
      call'.membership = some (command, .waitCommit prev) →
      Change R r { r.pushDispatch { command := command, promiseHandle := none } with
        calls := r.calls.set j call' }

abbrev Changes (R : Rules) : Replica → Replica → Prop := ReflTransGen (Change R)

end Replica
end OhMyDb
