import OhMyDb.Model.RaftState

/-!
One replica process: `RaftManager`, the calls running in it, and the promise
store and database they share. Each function is what one thread does between
taking and releasing `state_.Mut`; the places where `ApplyAddServer` and
`ApplyRemoveServer` release the mutex split the surrounding loop in two.
-/

namespace OhMyDb

/-- What a replica has done so far, newest first. No step reads it. -/
inductive Event where
  | voted (candidate term : Int)
  | becameLeader (state : RaftState)
  | committed (state : RaftState)
  | pushedOut (index : Int) (op : RaftOp)
  | executed (op : RaftOp) (res : Res)
  | tookPromise (it : Handle)
  | indexMismatch (size index : Int)

/-- A thread of `startElection`. The RPC may be served long after the thread
has given up, and more than once. -/
structure VoteThread where
  peer : Int
  savedCurrentTerm : Int
  args : Option RequestVoteParams := none
  replies : List RequestVoteRet := []
  finished : Bool := false
  received : Option RequestVoteRet := none

/-- A thread of `runLeaderOneIter`. -/
structure AppendThread where
  peer : Int
  savedCurrentTerm : Int
  nextIndex : Int := 0
  args : Option AppendEntriesParams := none
  replies : List AppendEntriesRet := []
  finished : Bool := false

/-- The call that runs while `state_.Mut` is released in the middle of
`ApplyAddServer` or `ApplyRemoveServer`. -/
inductive PeerUpdate where
  | addPeer (peerId : Int)
  | removePeer (peerId : Int)
  deriving DecidableEq

/-- Where the thread of `raftImpl` stands. -/
inductive RaftThread where
  | top
  | swapped
  | isLeader
  | updatingPeers (savedCurrentTerm : Int) (update : PeerUpdate) (rest : List RaftOp)
  | relocking (savedCurrentTerm : Int) (rest : List RaftOp)
  | spawning (savedCurrentTerm : Int)
  | sleeping
  deriving DecidableEq

/-- An `AppendEntries` call standing where the mutex is released: `update` is
still to be made, or the mutex is to be taken again when it is `none`. -/
structure AppendHandler where
  owner : Int
  thread : Nat
  args : AppendEntriesParams
  update : Option PeerUpdate
  current : AppendLogEntry
  rest : List AppendLogEntry

/-- `ReplicaManager::get` / `put` and `RaftManager::AddServer` / `RemoveServer`. -/
inductive Call where
  | submitting (op : RaftOp) (it : Handle)
  | queueing (op : RaftOp) (it : Handle)
  | refused (op : RaftOp) (it : Handle)
  | waiting (op : RaftOp) (it : Handle)
  | returned (op : RaftOp) (it : Handle) (ret : Ret)
  | addWaitPrev (info : ServerInfo) (retryCount : Nat)
  | addSubmit (info : ServerInfo) (prevConfigChangeIndex : Int)
  | addWaitCommit (info : ServerInfo) (prevConfigChangeIndex : Int) (retryCount : Nat)
  | addReturned (ret : MembershipRet)
  | removeWaitPrev (serverId : Int) (retryCount : Nat)
  | removeSubmit (serverId prevConfigChangeIndex : Int)
  | removeWaitCommit (serverId prevConfigChangeIndex : Int) (retryCount : Nat)
  | removeReturned (ret : MembershipRet)

structure Replica where
  id : Int
  state : RaftState := {}
  peers : IntMap Unit := ∅
  dispatchOut : List RaftOp := []
  raftIn : List RaftOp := []
  raftOut : List RaftOp := []
  execIn : List RaftOp := []
  raftThread : RaftThread := .top
  voteThreads : List VoteThread := []
  appendThreads : List AppendThread := []
  handlers : List AppendHandler := []
  calls : List Call := []
  promises : PromiseStore := {}
  db : Store := fun _ => none
  hist : List Event := []

def RAFT_MEMBERSHIP_WAIT_ITERS : Nat := 100

namespace Replica

/-! Membership and role changes. -/

def addPeer (r : Replica) (peerId : Int) : Replica :=
  { r with
    state := { r.state with
      nextIndex := r.state.nextIndex.insert peerId 0
      matchIndex := r.state.matchIndex.insert peerId (-1) }.persist
    peers := r.peers.insert peerId () }

def removePeer (r : Replica) (peerId : Int) : Replica :=
  { r with
    state := { r.state with
      nextIndex := r.state.nextIndex.erase peerId
      matchIndex := r.state.matchIndex.erase peerId }
    peers := r.peers.erase peerId }

def updatePeers (r : Replica) : PeerUpdate → Replica
  | .addPeer peerId => r.addPeer peerId
  | .removePeer peerId => r.removePeer peerId

/-- `ApplyAddServer` / `ApplyRemoveServer` up to the point where they release
the mutex, which they do for every server but the replica itself. -/
def applyConfig (r : Replica) : Command → Replica × Option PeerUpdate
  | .addServer info =>
      ({ r with state := { r.state with
          lastConfigChangeIndex := r.state.logs.size - 1
          clusterConfig := r.state.clusterConfig.insert info.id info }.persist },
        if r.id ≠ info.id then some (.addPeer info.id) else none)
  | .removeServer serverId =>
      ({ r with state := { r.state with
          lastConfigChangeIndex := r.state.logs.size - 1
          clusterConfig := r.state.clusterConfig.erase serverId }.persist },
        if r.id ≠ serverId then some (.removePeer serverId) else none)
  | .get _ | .put _ _ => (r, none)

def pushLog (r : Replica) (e : LogEntry) : Replica :=
  { r with state := { r.state with logs := r.state.logs.pushBack e } }

def persistLogs (r : Replica) : Replica :=
  { r with state := { r.state with logs := r.state.logs.persist } }

/-! Elections. -/

def startElection (r : Replica) (now : Int) : Replica :=
  let term := r.state.currentTerm + 1
  { r with
    state := { r.state.becomeCandidate r.id term now with votesReceived := 1 }
    voteThreads := r.voteThreads ++
      r.peers.keys.map fun id => { peer := id, savedCurrentTerm := term }
    hist := .voted r.id term :: r.hist }

/-- One round of the loop of `electionImpl`. -/
def electionTick (r : Replica) (now electionTimeoutMillis : Int) : Replica :=
  if r.state.role = .follower ∧ now - r.state.electionResetEvent > electionTimeoutMillis then
    r.startElection now
  else r

/-- The request a vote thread sends. -/
def voteParams (r : Replica) (savedCurrentTerm : Int) : RequestVoteParams where
  candidateId := r.id
  term := savedCurrentTerm
  lastLogIndex := r.state.logs.size - 1
  lastLogTerm := r.state.logs.lastTerm

/-- The comparison of the two logs in `RequestVote`. -/
def upToDate (args : RequestVoteParams) (lastLogIndex lastLogTerm : Int) : Prop :=
  args.lastLogTerm > lastLogTerm ∨
    (args.lastLogTerm = lastLogTerm ∧ args.lastLogIndex ≥ lastLogIndex)

instance (args : RequestVoteParams) (i t : Int) : Decidable (upToDate args i t) :=
  inferInstanceAs (Decidable (_ ∨ _))

/-- The state in which `RequestVote` decides on the vote. -/
def observeTerm (r : Replica) (term now : Int) : RaftState :=
  if term > r.state.currentTerm then r.state.becomeFollower term now else r.state

def grantsVote (r : Replica) (args : RequestVoteParams) (now : Int) : Prop :=
  args.term = (r.observeTerm args.term now).currentTerm ∧
    ((r.observeTerm args.term now).votedFor = -1 ∨
      (r.observeTerm args.term now).votedFor = args.candidateId) ∧
    upToDate args (r.state.logs.size - 1) r.state.logs.lastTerm

instance (r : Replica) (args : RequestVoteParams) (now : Int) :
    Decidable (r.grantsVote args now) :=
  inferInstanceAs (Decidable (_ ∧ _))

def requestVote (r : Replica) (args : RequestVoteParams) (now : Int) :
    Replica × RequestVoteRet :=
  if args.candidateId ∉ r.peers then
    (r, { term := r.state.currentTerm, voteGranted := false })
  else
    let s := r.observeTerm args.term now
    if r.grantsVote args now then
      ({ r with
          state := { s with votedFor := args.candidateId, electionResetEvent := now }.persist
          hist := .voted args.candidateId s.currentTerm :: r.hist },
        { term := s.currentTerm, voteGranted := true })
    else
      ({ r with state := s.persist }, { term := s.currentTerm, voteGranted := false })

/-- The reply part of a vote thread. -/
def voteReply (r : Replica) (savedCurrentTerm : Int) (reply : RequestVoteRet)
    (now : Int) : Replica :=
  if r.state.role ≠ .candidate then r
  else if reply.term > savedCurrentTerm then
    { r with state := r.state.becomeFollower reply.term now }
  else if reply.term = savedCurrentTerm ∧ reply.voteGranted = true then
    let s := { r.state with votesReceived := r.state.votesReceived + 1 }
    if s.votesReceived * 2 > (s.clusterConfig.size : Int) then
      let s := s.becomeLeader r.id r.peers.keys now
      { r with state := s, hist := .becameLeader s :: r.hist }
    else { r with state := s }
  else r

/-! Applying committed entries. -/

/-- The operations at `LastApplied + 1 .. CommitIndex`, with their indices. -/
def newlyCommitted (s : RaftState) : List (Int × RaftOp) :=
  (List.range (s.commitIndex - s.lastApplied).toNat).filterMap fun (j : Nat) =>
    (s.logs.at? (s.lastApplied + 1 + j)).map fun e => (s.lastApplied + 1 + j, e.op)

/-- Queue what has been committed for the executer. -/
def queueCommitted (r : Replica) : Replica :=
  { r with
    raftOut := r.raftOut ++ (newlyCommitted r.state).map (·.2)
    state := { r.state with lastApplied := r.state.commitIndex }
    hist := ((newlyCommitted r.state).map fun p => .pushedOut p.1 p.2).reverse ++ r.hist }

/-- One round of `executerImpl` when `execIn_` is empty, else the next operation of it. -/
def executer (r : Replica) (ok : Bool) : Replica :=
  match r.execIn with
  | [] => { r with execIn := r.raftOut, raftOut := [] }
  | op :: rest =>
      { r with
        execIn := rest
        db := (op.run r.db ok).1
        promises := op.resolve r.promises (op.run r.db ok).2
        hist := (op.promiseHandle.toList.map .tookPromise) ++
          .executed op (op.run r.db ok).2 :: r.hist }

/-! Log replication, leader side. -/

/-- The append loop of `runLeaderOneIter`, up to its end or to the next release
of the mutex. -/
def leaderAppendLoop : List RaftOp → Replica → Replica × Option (PeerUpdate × List RaftOp)
  | [], r => (r, none)
  | op :: ops, r =>
      match (r.pushLog { term := r.state.currentTerm, op := op }).applyConfig op.command with
      | (r, some update) => (r, some (update, ops))
      | (r, none) => leaderAppendLoop ops r

/-- The locked section of `runLeaderOneIter` from its loop on. -/
def leaderAppend (r : Replica) (savedCurrentTerm : Int) (ops : List RaftOp) : Replica :=
  match leaderAppendLoop ops r with
  | (r, some (update, rest)) =>
      { r with raftThread := .updatingPeers savedCurrentTerm update rest }
  | (r, none) => { r.persistLogs with raftThread := .spawning savedCurrentTerm }

/-- The thread of `raftImpl`, one step further. -/
def raftImpl (r : Replica) : Replica :=
  match r.raftThread with
  | .top =>
      { r with dispatchOut := r.raftIn, raftIn := r.dispatchOut, raftThread := .swapped }
  | .swapped =>
      { r with raftThread := if r.state.role = .leader then .isLeader else .sleeping }
  | .isLeader => r.leaderAppend r.state.currentTerm r.raftIn
  | .updatingPeers saved update rest =>
      { r.updatePeers update with raftThread := .relocking saved rest }
  | .relocking saved rest => r.leaderAppend saved rest
  | .spawning saved =>
      { r with
        appendThreads := r.appendThreads ++
          r.peers.keys.map fun id => { peer := id, savedCurrentTerm := saved }
        raftThread := .sleeping }
  | .sleeping => { r with raftIn := [], raftThread := .top }

/-- `args.entries` of a sender thread. -/
def entriesFrom (logs : LogVector) (nextIndex : Int) : List AppendLogEntry :=
  if nextIndex < 0 then []
  else (logs.items.drop nextIndex.toNat).mapIdx fun j e =>
    { term := e.term, index := nextIndex + j, op := e.op.withoutPromise }

/-- `prevLogTerm` of a sender thread; `junk` is what the read of
`Logs[prevLogIndex]` yields beyond the end of the vector. -/
def prevTerm (logs : LogVector) (prevLogIndex junk : Int) : Int :=
  if prevLogIndex ≥ 0 then
    match logs.at? prevLogIndex with
    | some e => e.term
    | none => junk
  else -1

def appendParams (r : Replica) (savedCurrentTerm nextIndex junk : Int) :
    AppendEntriesParams where
  term := savedCurrentTerm
  leaderId := r.id
  prevLogIndex := nextIndex - 1
  prevLogTerm := prevTerm r.state.logs (nextIndex - 1) junk
  entries := entriesFrom r.state.logs nextIndex
  leaderCommit := r.state.commitIndex

/-- `matchCount` without the leader, `MatchIndex` being read with `operator[]`. -/
def countMatches (i : Int) : List Int → IntMap Int → Int × IntMap Int
  | [], m => (0, m)
  | pid :: pids, m =>
      let (v, m) := m.subscript pid 0
      let (n, m) := countMatches i pids m
      ((if v ≥ i then 1 else 0) + n, m)

/-- The body of the commit scan for index `i`. -/
def commitStep (id : Int) (peers : List Int) (s : RaftState) (i : Int) : RaftState :=
  if (s.logs.at? i).map (·.term) = some s.currentTerm then
    let (n, m) := countMatches i peers s.matchIndex
    let matchCount := (if id ∈ s.clusterConfig then 1 else 0) + n
    if matchCount * 2 > (s.clusterConfig.size : Int) then
      { s with matchIndex := m, commitIndex := i }
    else { s with matchIndex := m }
  else s

def commitScan (id : Int) (peers : List Int) (s : RaftState) : RaftState :=
  (List.range (s.logs.size - (s.commitIndex + 1)).toNat).foldl
    (fun t (j : Nat) => commitStep id peers t (s.commitIndex + 1 + j)) s

/-- The reply part of a sender thread. -/
def appendReply (r : Replica) (id savedCurrentTerm nextIndex : Int) (numEntries : Nat)
    (reply : AppendEntriesRet) (now : Int) : Replica :=
  if reply.term > savedCurrentTerm then
    { r with state := r.state.becomeFollower reply.term now }
  else if r.state.role = .leader ∧ savedCurrentTerm = reply.term then
    if reply.success = true then
      let s := commitScan r.id r.peers.keys { r.state with
        nextIndex := r.state.nextIndex.insert id (nextIndex + numEntries)
        matchIndex := r.state.matchIndex.insert id (nextIndex + numEntries - 1) }
      if s.commitIndex ≠ r.state.commitIndex then
        { r with state := s, hist := .committed s :: r.hist }.queueCommitted
      else { r with state := s }
    else
      { r with state := { r.state with nextIndex := r.state.nextIndex.insert id (nextIndex - 1) } }
  else r

/-! Log replication, follower side. -/

/-- The check of `prevLogIndex` and `prevLogTerm` in `AppendEntries`. -/
def prevMatches (logs : LogVector) (args : AppendEntriesParams) : Prop :=
  args.prevLogIndex = -1 ∨
    (args.prevLogIndex < logs.size ∧
      (logs.at? args.prevLogIndex).map (·.term) = some args.prevLogTerm)

instance (logs : LogVector) (args : AppendEntriesParams) : Decidable (prevMatches logs args) :=
  inferInstanceAs (Decidable (_ ∨ _))

/-- How far the merge loop advances: both indices move while the terms agree. -/
def matchingEntries : List LogEntry → List AppendLogEntry → Nat
  | l :: ls, e :: es => if l.term ≠ e.term then 0 else matchingEntries ls es + 1
  | _, _ => 0

def newEntriesIndex (logs : LogVector) (args : AppendEntriesParams) : Nat :=
  matchingEntries (logs.items.drop (args.prevLogIndex + 1).toNat) args.entries

def logInsertIndex (logs : LogVector) (args : AppendEntriesParams) : Nat :=
  (args.prevLogIndex + 1).toNat + newEntriesIndex logs args

/-- Abort what is removed, then `resize`. -/
def truncate (r : Replica) (n : Nat) : Replica :=
  { r with
    state := { r.state with logs := r.state.logs.resize n }
    promises := (r.state.logs.items.drop n).foldl (fun ps e => e.op.abort ps) r.promises
    hist := ((r.state.logs.items.drop n).filterMap
      fun e => e.op.promiseHandle.map .tookPromise).reverse ++ r.hist }

def checkIndex (r : Replica) (e : AppendLogEntry) : Replica :=
  if r.state.logs.size - 1 ≠ e.index then
    { r with hist := .indexMismatch r.state.logs.size e.index :: r.hist }
  else r

/-- The append loop of `AppendEntries`, up to its end or to the next release of
the mutex. -/
def appendLoop : List AppendLogEntry → Replica →
    Replica × Option (PeerUpdate × AppendLogEntry × List AppendLogEntry)
  | [], r => (r, none)
  | e :: es, r =>
      match (r.pushLog { term := e.term, op := e.op }).applyConfig e.op.command with
      | (r, some update) => (r, some (update, e, es))
      | (r, none) => appendLoop es (r.checkIndex e)

/-- The commit rule of `AppendEntries`. -/
def followCommit (r : Replica) (leaderCommit : Int) : Replica :=
  if leaderCommit > r.state.commitIndex then
    { r with state := { r.state with
        commitIndex := min leaderCommit (r.state.logs.size - 1) } }.queueCommitted
  else r

inductive AppendOutcome where
  | replied (ret : AppendEntriesRet)
  | suspended (update : PeerUpdate) (current : AppendLogEntry) (rest : List AppendLogEntry)

/-- The append loop and what follows it. -/
def appendRest (r : Replica) (args : AppendEntriesParams) (entries : List AppendLogEntry) :
    Replica × AppendOutcome :=
  match appendLoop entries r with
  | (r, some (update, e, rest)) => (r, .suspended update e rest)
  | (r, none) =>
      let r := r.persistLogs.followCommit args.leaderCommit
      (r, .replied { term := r.state.currentTerm, success := true })

/-- The body of `AppendEntries` once the previous entry has been found to match. -/
def mergeEntries (r : Replica) (args : AppendEntriesParams) : Replica × AppendOutcome :=
  if newEntriesIndex r.state.logs args < args.entries.length then
    (r.truncate (logInsertIndex r.state.logs args)).appendRest args
      (args.entries.drop (newEntriesIndex r.state.logs args))
  else
    let r := r.followCommit args.leaderCommit
    (r, .replied { term := r.state.currentTerm, success := true })

/-- The entry part of `AppendEntries`, for a replica that is not dead. -/
def observeLeader (r : Replica) (args : AppendEntriesParams) (now : Int) : RaftState :=
  let s := { r.state with
    electionResetEvent :=
      if args.term ≥ r.state.currentTerm then now else r.state.electionResetEvent
    lastKnownLeaderId := args.leaderId }
  let s := if args.term > s.currentTerm then s.becomeFollower args.term now else s
  if args.term = s.currentTerm ∧ s.role ≠ .follower then s.becomeFollower args.term now else s

def appendEntries (r : Replica) (args : AppendEntriesParams) (now : Int) :
    Replica × AppendOutcome :=
  if r.state.role = .dead then
    ({ r with state := { r.state with
        electionResetEvent :=
          if args.term ≥ r.state.currentTerm then now else r.state.electionResetEvent } },
      .replied { term := 0, success := false })
  else
    let s := r.observeLeader args now
    if args.term = s.currentTerm ∧ prevMatches s.logs args then
      { r with state := s }.mergeEntries args
    else
      ({ r with state := s }, .replied { term := s.currentTerm, success := false })

end Replica

end OhMyDb
