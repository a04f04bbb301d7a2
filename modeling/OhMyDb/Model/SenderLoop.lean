import OhMyDb.Model.Cluster

/-!
The loop of `runLeaderOneIter` that creates the sender threads. It walks through `peers_` once
the mutex has been released, so that `addPeer` and `removePeer` may come between any two of
its steps.
-/

namespace OhMyDb

/-- Where the iterator of the loop stands. The thread for that peer is still to be created, or
the iterator is to be moved on. -/
inductive SenderLoop where
  | outside
  | creating (peerId : Int)
  | advancing (peerId : Int)
  deriving DecidableEq

def SenderLoop.peer? : SenderLoop → Option Int
  | .outside => none
  | .creating peerId | .advancing peerId => some peerId

/-- The replicas, and where the loop of each of them stands. -/
structure LoopingCluster where
  cluster : Cluster
  loop : Int → SenderLoop := fun _ => .outside

/-- A step outside the loop, or the next one of the loop of replica `r`. -/
inductive LoopingAction where
  | step (a : Action)
  | loop (r : Int)

namespace LoopingCluster

def launch (servers : List Int) (config : Int → IntMap ServerInfo) : LoopingCluster where
  cluster := .launch servers config

/-- The thread of `raftImpl` creates the sender threads in this step. -/
def inLoop (s : LoopingCluster) : Action → Bool
  | .raftImpl r =>
      match (s.cluster.node r).raftThread with
      | .spawning _ => true
      | _ => false
  | _ => false

/-- The iterator is moved to a peer, or to the end. -/
def move (s : LoopingCluster) (r : Int) : Option Int → LoopingCluster
  | some peerId => { s with loop := Function.update s.loop r (.creating peerId) }
  | none =>
      { cluster := s.cluster.set r { s.cluster.node r with raftThread := .sleeping }
        loop := Function.update s.loop r .outside }

/-- The map is walked through in the order of its keys. -/
def loopStep (s : LoopingCluster) (r : Int) : Option LoopingCluster :=
  match (s.cluster.node r).raftThread with
  | .spawning savedCurrentTerm =>
      let x := s.cluster.node r
      match s.loop r with
      | .outside => some (s.move r x.peers.keys.min?)
      | .creating peerId =>
          some {
            cluster := s.cluster.set r { x with
              appendThreads := x.appendThreads ++
                [{ peer := peerId, savedCurrentTerm := savedCurrentTerm }] }
            loop := Function.update s.loop r (.advancing peerId) }
      | .advancing peerId => some (s.move r (x.peers.keys.filter (peerId < ·)).min?)
  | _ => none

def step (s : LoopingCluster) : LoopingAction → Option LoopingCluster
  | .step a =>
      if s.inLoop a = true then none
      else (s.cluster.step a).map fun c => { s with cluster := c }
  | .loop r => if r ∈ s.cluster.servers then s.loopStep r else none

end LoopingCluster
end OhMyDb
