import OhMyDb.Model.Calls

/-!
The cluster: the replica processes and every RPC between them. A request or a
reply stays available once it has been sent, so that it can be lost, delayed,
duplicated and reordered at will; a client thread takes one reply at most.
-/

namespace OhMyDb

structure Cluster where
  servers : List Int
  node : Int → Replica

/-- One atomic step. `r` is the replica whose thread makes it, `k` and `j` pick
the thread or call, and `now` is what the clock reads. -/
inductive Action where
  | electionTick (r now electionTimeoutMillis : Int)
  | voteSend (r : Int) (k : Nat)
  | voteDeliver (r : Int) (k : Nat) (now : Int)
  | voteReturn (r : Int) (k : Nat) (reply : RequestVoteRet) (now : Int)
  | voteFail (r : Int) (k : Nat)
  | raftImpl (r : Int)
  | appendSend (r : Int) (k : Nat) (junk : Int)
  | appendDeliver (r : Int) (k : Nat) (now : Int)
  | appendResume (r : Int) (j : Nat)
  | appendReturn (r : Int) (k : Nat) (reply : AppendEntriesRet) (now : Int)
  | appendFail (r : Int) (k : Nat)
  | executer (r : Int) (ok : Bool)
  | clientGet (r key : Int)
  | clientPut (r key value : Int)
  | addServer (r : Int) (args : AddServerParams)
  | removeServer (r serverId : Int)
  | callStep (r : Int) (j : Nat) (now : Int)

/-- The replica that makes the step, or whose thread the step belongs to. -/
def Action.replica : Action → Int
  | electionTick r _ _ | voteSend r _ | voteDeliver r _ _ | voteReturn r _ _ _ | voteFail r _
  | raftImpl r | appendSend r _ _ | appendDeliver r _ _ | appendResume r _
  | appendReturn r _ _ _ | appendFail r _ | executer r _ | clientGet r _ | clientPut r _ _
  | addServer r _ | removeServer r _ | callStep r _ _ => r

namespace Replica

/-- `ReplicaManager::initialiseServices` without bootstrap. -/
def initialise (id : Int) (config : IntMap ServerInfo) : Replica :=
  (config.keys.filter (· ≠ id)).foldl addPeer
    { id := id, state := { clusterConfig := config : RaftState }.persist }

def updateVoteThread (r : Replica) (k : Nat) (f : VoteThread → VoteThread) : Replica :=
  { r with voteThreads := r.voteThreads.modify k f }

def updateAppendThread (r : Replica) (k : Nat) (f : AppendThread → AppendThread) : Replica :=
  { r with appendThreads := r.appendThreads.modify k f }

/-- A vote thread reads the log under the mutex and sends its request. -/
def voteSend (r : Replica) (k : Nat) : Option Replica :=
  match r.voteThreads[k]? with
  | none => none
  | some t =>
      if t.args.isNone ∧ t.finished = false ∧ t.peer ∈ r.peers then
        some (r.updateVoteThread k fun t =>
          { t with args := some (r.voteParams t.savedCurrentTerm) })
      else none

def voteReturn (r : Replica) (k : Nat) (reply : RequestVoteRet) (now : Int) : Option Replica :=
  match r.voteThreads[k]? with
  | none => none
  | some t =>
      if t.finished = false ∧ reply ∈ t.replies then
        some ((r.voteReply t.savedCurrentTerm reply now).updateVoteThread k fun t =>
          { t with finished := true, received := some reply })
      else none

/-- The RPC fails: the thread returns. -/
def voteFail (r : Replica) (k : Nat) : Option Replica :=
  match r.voteThreads[k]? with
  | none => none
  | some t =>
      if t.finished = false ∧ t.args.isSome then
        some (r.updateVoteThread k fun t => { t with finished := true })
      else none

/-- A sender thread builds its request under the mutex and sends it. -/
def appendSend (r : Replica) (k : Nat) (junk : Int) : Option Replica :=
  match r.appendThreads[k]? with
  | none => none
  | some t =>
      if t.args.isNone ∧ t.finished = false ∧ t.peer ∈ r.peers then
        let (nextIndex, m) := r.state.nextIndex.subscript t.peer 0
        some ({ r with state := { r.state with nextIndex := m } }.updateAppendThread k fun t =>
          { t with
            nextIndex := nextIndex
            args := some (r.appendParams t.savedCurrentTerm nextIndex junk) })
      else none

def appendReturn (r : Replica) (k : Nat) (reply : AppendEntriesRet) (now : Int) :
    Option Replica :=
  match r.appendThreads[k]? with
  | none => none
  | some t =>
      match t.args with
      | none => none
      | some args =>
          if t.finished = false ∧ reply ∈ t.replies then
            some ((r.appendReply t.peer t.savedCurrentTerm t.nextIndex args.entries.length
              reply now).updateAppendThread k fun t => { t with finished := true })
          else none

def appendFail (r : Replica) (k : Nat) : Option Replica :=
  match r.appendThreads[k]? with
  | none => none
  | some t =>
      if t.finished = false ∧ t.args.isSome then
        some (r.updateAppendThread k fun t => { t with finished := true })
      else none

end Replica

namespace Cluster

/-- Every server is launched with a configuration file of its own. -/
def launch (servers : List Int) (config : Int → IntMap ServerInfo) : Cluster where
  servers := servers
  node id := .initialise id (config id)

/-- A cluster all of whose members are launched with the same file. -/
def fixed (config : IntMap ServerInfo) : Cluster :=
  launch config.keys fun _ => config

def set (c : Cluster) (r : Int) (x : Replica) : Cluster :=
  { c with node := Function.update c.node r x }

/-- A step that concerns replica `r` only. -/
def locally (c : Cluster) (r : Int) (f : Replica → Option Replica) : Option Cluster :=
  (f (c.node r)).map (c.set r)

def pushVoteReply (c : Cluster) (r : Int) (k : Nat) (ret : RequestVoteRet) : Cluster :=
  c.set r ((c.node r).updateVoteThread k fun t => { t with replies := ret :: t.replies })

def pushAppendReply (c : Cluster) (r : Int) (k : Nat) (ret : AppendEntriesRet) : Cluster :=
  c.set r ((c.node r).updateAppendThread k fun t => { t with replies := ret :: t.replies })

/-- The request of vote thread `k` of `r` is served by its peer. -/
def voteDeliver (c : Cluster) (r : Int) (k : Nat) (now : Int) : Option Cluster :=
  match (c.node r).voteThreads[k]? with
  | none => none
  | some t =>
      match t.args with
      | none => none
      | some args =>
          if t.peer ∈ c.servers then
            let (p, ret) := (c.node t.peer).requestVote args now
            some ((c.set t.peer p).pushVoteReply r k ret)
          else none

/-- Where an `AppendEntries` call of `owner` at `p` goes on from. -/
def settleAppend (c : Cluster) (p owner : Int) (k : Nat) (args : AppendEntriesParams)
    (x : Replica) : Replica.AppendOutcome → Cluster
  | .replied ret => (c.set p x).pushAppendReply owner k ret
  | .suspended update current rest =>
      c.set p { x with handlers := x.handlers ++
        [{ owner := owner, thread := k, args := args, update := some update,
           current := current, rest := rest }] }

def appendDeliver (c : Cluster) (r : Int) (k : Nat) (now : Int) : Option Cluster :=
  match (c.node r).appendThreads[k]? with
  | none => none
  | some t =>
      match t.args with
      | none => none
      | some args =>
          if t.peer ∈ c.servers then
            let (p, outcome) := (c.node t.peer).appendEntries args now
            some (c.settleAppend t.peer r k args p outcome)
          else none

/-- The suspended `AppendEntries` call `j` of `p` goes on. -/
def appendResume (c : Cluster) (p : Int) (j : Nat) : Option Cluster :=
  match (c.node p).handlers[j]? with
  | none => none
  | some h =>
      match h.update with
      | some update =>
          let x := (c.node p).updatePeers update
          some (c.set p { x with handlers := x.handlers.set j { h with update := none } })
      | none =>
          let x := { c.node p with handlers := (c.node p).handlers.eraseIdx j }
          let (x, outcome) := (x.checkIndex h.current).appendRest h.args h.rest
          some (c.settleAppend p h.owner h.thread h.args x outcome)

def act (c : Cluster) : Action → Option Cluster
  | .electionTick r now timeout => c.locally r fun x => some (x.electionTick now timeout)
  | .voteSend r k => c.locally r fun x => x.voteSend k
  | .voteDeliver r k now => c.voteDeliver r k now
  | .voteReturn r k reply now => c.locally r fun x => x.voteReturn k reply now
  | .voteFail r k => c.locally r fun x => x.voteFail k
  | .raftImpl r => c.locally r fun x => some x.raftImpl
  | .appendSend r k junk => c.locally r fun x => x.appendSend k junk
  | .appendDeliver r k now => c.appendDeliver r k now
  | .appendResume p j => c.appendResume p j
  | .appendReturn r k reply now => c.locally r fun x => x.appendReturn k reply now
  | .appendFail r k => c.locally r fun x => x.appendFail k
  | .executer r ok => c.locally r fun x => some (x.executer ok)
  | .clientGet r key => c.locally r fun x => some (x.clientCall (.get key))
  | .clientPut r key value => c.locally r fun x => some (x.clientCall (.put key value))
  | .addServer r args => c.locally r fun x => some (x.addServer args)
  | .removeServer r serverId => c.locally r fun x => some (x.removeServer serverId)
  | .callStep r j now => c.locally r fun x => x.callStep j now

/-- One step of the cluster; only launched servers run. -/
def step (c : Cluster) (a : Action) : Option Cluster :=
  if a.replica ∈ c.servers then c.act a else none

end Cluster
end OhMyDb
