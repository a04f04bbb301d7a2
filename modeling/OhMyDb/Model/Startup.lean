import OhMyDb.Model.Restart

/-!
`ReplicaManager::initialiseServices`, one step at a time. It runs the server of the raft RPCs
before it adds the peers, and may wait for a majority of them in between.
-/

namespace OhMyDb

/-- What has to wait for the end of `initialiseServices`: the threads of `RaftManager::start`, and
the calls of clients. -/
def Action.needsStart : Action → Bool
  | .electionTick _ _ _ | .raftImpl _ | .executer _ _ | .clientGet _ _ | .clientPut _ _ _ => true
  | .voteSend _ _ | .voteDeliver _ _ _ | .voteReturn _ _ _ _ | .voteFail _ _ | .appendSend _ _ _
  | .appendDeliver _ _ _ | .appendResume _ _ | .appendReturn _ _ _ _ | .appendFail _ _
  | .addServer _ _ | .removeServer _ _ | .callStep _ _ _ => false

/-- The replicas, and the peers that each of them has still to add. -/
structure StartingCluster where
  cluster : Cluster
  unadded : Int → List Int

/-- A step of the cluster, or a call of `addPeer` in `initialiseServices`. -/
inductive StartingAction where
  | step (a : Action)
  | addPeer (r peerId : Int)

namespace StartingCluster

/-- Every server has called `bootstrap`, which may have loaded anything, and `setClusterConfig`. -/
def launch (servers : List Int) (config : Int → IntMap ServerInfo) (withBootstrap : Int → Bool)
    (stored : Int → PersistentStore) (file : Int → List LogEntry) : StartingCluster where
  cluster :=
    { servers := servers
      node := fun r => (Replica.bootstrap { id := r } (withBootstrap r) (stored r)
        (file r)).setClusterConfig (config r) }
  unadded r := (config r).keys.filter (· ≠ r)

def step (s : StartingCluster) : StartingAction → Option StartingCluster
  | .step a =>
      if a.needsStart = true ∧ s.unadded a.replica ≠ [] then none
      else (s.cluster.step a).map fun c => { s with cluster := c }
  | .addPeer r peerId =>
      if r ∈ s.cluster.servers ∧ peerId ∈ s.unadded r then
        some {
          cluster := s.cluster.set r ((s.cluster.node r).addPeer peerId)
          unadded := Function.update s.unadded r ((s.unadded r).erase peerId) }
      else none

end StartingCluster
end OhMyDb
