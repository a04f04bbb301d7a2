import OhMyDb.Model.Cluster

/-!
Processes that are killed and started again with `enableBootstrap`. What survives is
on disk: the records of the log, the two stored values, the database and the
configuration file. The requests a process has sent stay on their way.
-/

namespace OhMyDb

/-- `PersistentVector::bootstrap`, at the level of whole records. -/
def LogVector.bootstrap (v : LogVector) : LogVector :=
  { items := v.file, persistedItems := v.file.length, file := v.file }

namespace Replica

/-- `RaftManager::bootstrap` in a new process. `p` is what the store loads, and `file`
the records of the log file, which is truncated without bootstrap. -/
def bootstrap (r : Replica) (withBootstrap : Bool) (p : PersistentStore)
    (file : List LogEntry) : Replica where
  id := r.id
  state :=
    if withBootstrap = true then
      { currentTerm := p.currentTerm
        votedFor := p.votedFor
        logs := ({ file := file } : LogVector).bootstrap
        pStore := p }
    else RaftState.persist {}
  voteThreads := r.voteThreads.map fun t => { t with finished := true }
  appendThreads := r.appendThreads.map fun t => { t with finished := true }
  promises := { nextHandle := r.promises.nextHandle }
  db := r.db
  hist := r.hist

def setClusterConfig (r : Replica) (config : IntMap ServerInfo) : Replica :=
  { r with state := { r.state with clusterConfig := config }.persist }

/-- `ReplicaManager::initialiseServices` with bootstrap, in a new process. -/
def restart (r : Replica) (config : IntMap ServerInfo) : Replica :=
  (config.keys.filter (· ≠ r.id)).foldl addPeer
    { id := r.id
      state := ({
        currentTerm := r.state.pStore.currentTerm
        votedFor := r.state.pStore.votedFor
        logs := r.state.logs.bootstrap
        clusterConfig := config } : RaftState).persist
      voteThreads := r.voteThreads.map fun t => { t with finished := true }
      appendThreads := r.appendThreads.map fun t => { t with finished := true }
      promises := { nextHandle := r.promises.nextHandle }
      db := r.db
      hist := r.hist }

end Replica

/-- What happens to a cluster whose processes may be killed. -/
inductive Incident where
  | step (a : Action)
  | restart (r : Int)

namespace Cluster

/-- `config` are the configuration files. A process is killed between two steps. -/
def proceed (config : Int → IntMap ServerInfo) (c : Cluster) : Incident → Option Cluster
  | .step a => c.step a
  | .restart r =>
      if r ∈ c.servers then some (c.set r ((c.node r).restart (config r))) else none

end Cluster
end OhMyDb
