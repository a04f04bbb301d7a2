import OhMyDb.Model.Operation

/-!
The state one replica protects with `state_.Mut`, and the role transitions.
`Logs` is kept with its file at the level of whole records; the file's bytes are
the subject of the persistent vector's own module.
-/

namespace OhMyDb

/-- `PersistentVector<LogEntry>` with the records its file holds. -/
structure LogVector where
  items : List LogEntry := []
  persistedItems : Nat := 0
  file : List LogEntry := []

namespace LogVector

def size (v : LogVector) : Int := v.items.length

/-- `Logs[i]`, where it is inside the vector. -/
def at? (v : LogVector) (i : Int) : Option LogEntry :=
  if 0 ≤ i then v.items[i.toNat]? else none

def pushBack (v : LogVector) (e : LogEntry) : LogVector :=
  { v with items := v.items ++ [e] }

/-- `resize` to at most the present size. -/
def resize (v : LogVector) (newSize : Nat) : LogVector :=
  if newSize ≤ v.persistedItems then
    { items := v.items.take newSize, persistedItems := newSize, file := v.file.take newSize }
  else { v with items := v.items.take newSize }

/-- `persist`, with the `preproc_` that `RaftManager::bootstrap` installs. -/
def persist (v : LogVector) : LogVector :=
  if v.items.length = v.persistedItems then v
  else
    let w := v.resize v.items.length
    { w with
      persistedItems := v.items.length
      file := w.file ++ (w.items.drop w.persistedItems).map
        fun e => { e with op := e.op.withoutPromise } }

/-- The term of the last entry, or -1. -/
def lastTerm (v : LogVector) : Int :=
  match v.items.getLast? with
  | some e => e.term
  | none => -1

@[simp] theorem pushBack_items (v : LogVector) (e : LogEntry) :
    (v.pushBack e).items = v.items ++ [e] := rfl

@[simp] theorem pushBack_persistedItems (v : LogVector) (e : LogEntry) :
    (v.pushBack e).persistedItems = v.persistedItems := rfl

@[simp] theorem pushBack_file (v : LogVector) (e : LogEntry) :
    (v.pushBack e).file = v.file := rfl

@[simp] theorem resize_items (v : LogVector) (n : Nat) :
    (v.resize n).items = v.items.take n := by
  unfold resize
  split <;> rfl

@[simp] theorem persist_items (v : LogVector) : v.persist.items = v.items := by
  unfold persist
  split
  · rfl
  · simp

end LogVector

inductive RaftRole where
  | follower
  | candidate
  | leader
  | dead
  deriving DecidableEq

/-- The two values `RaftState::persist` stores, as the store would load them. -/
structure PersistentStore where
  votedFor : Int := -1
  currentTerm : Int := 0

structure RaftState where
  currentTerm : Int := 0
  votedFor : Int := -1
  logs : LogVector := {}
  role : RaftRole := .follower
  electionResetEvent : Int := 0
  commitIndex : Int := -1
  lastApplied : Int := -1
  lastKnownLeaderId : Int := 0
  clusterConfig : IntMap ServerInfo := ∅
  lastConfigChangeIndex : Int := -1
  nextIndex : IntMap Int := ∅
  matchIndex : IntMap Int := ∅
  votesReceived : Int := 0
  pStore : PersistentStore := {}

namespace RaftState

def persist (s : RaftState) : RaftState :=
  { s with pStore := { votedFor := s.votedFor, currentTerm := s.currentTerm } }

def becomeFollower (s : RaftState) (term now : Int) : RaftState :=
  { s with
    currentTerm := term
    role := .follower
    votedFor := -1
    electionResetEvent := now }.persist

def becomeCandidate (s : RaftState) (id term now : Int) : RaftState :=
  { s with
    currentTerm := term
    role := .candidate
    electionResetEvent := now
    votedFor := id }.persist

/-- The maps hold one entry for each peer afterwards, and no other. -/
def becomeLeader (s : RaftState) (id : Int) (peers : List Int) (now : Int) : RaftState :=
  { s with
    role := .leader
    electionResetEvent := now
    votedFor := -1
    lastKnownLeaderId := id
    nextIndex := peers.foldl (fun m p => m.insert p s.logs.size) ∅
    matchIndex := peers.foldl (fun m p => m.insert p (-1)) ∅ }.persist

/-- `getLastKnownLeaderRaftAddr`; `ClusterConfig` is read with `operator[]`. -/
def getLastKnownLeaderRaftAddr (s : RaftState) : String × RaftState :=
  let (info, config) := s.clusterConfig.subscript s.lastKnownLeaderId .zero
  (info.ip ++ ":" ++ toString info.raftPort, { s with clusterConfig := config })

def getLastKnownLeaderDBAddr (s : RaftState) : String × RaftState :=
  let (info, config) := s.clusterConfig.subscript s.lastKnownLeaderId .zero
  (info.ip ++ ":" ++ toString info.dbPort, { s with clusterConfig := config })

end RaftState

end OhMyDb
