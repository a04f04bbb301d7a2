import Mathlib.Data.List.AList

/-!
The records of the Raft layer: operations, log entries, RPC parameters and the
promises a client call waits on. Machine integers are unbounded; an operation's
`kind` and `args` are one `Command`, so that a mismatch of the two cannot be
built, and the promise iterator is a number that is never issued twice.
-/

namespace OhMyDb

/-- `std::map<int32_t, V>`: the order of the keys is never observed. -/
abbrev IntMap (V : Type) := AList (fun _ : Int => V)

namespace IntMap
variable {V : Type}

def size (m : IntMap V) : Nat := m.keys.length

/-- `operator[]`: a missing key is inserted with the default value. -/
def subscript (m : IntMap V) (k : Int) (dflt : V) : V × IntMap V :=
  match m.lookup k with
  | some v => (v, m)
  | none => (dflt, m.insert k dflt)

end IntMap

structure ServerInfo where
  id : Int
  ip : String
  raftPort : Int
  dbPort : Int
  name : String
  deriving DecidableEq

/-- The value `operator[]` stores for a server that is not in the map. -/
def ServerInfo.zero : ServerInfo := ⟨0, "", 0, 0, ""⟩

/-- `Operation::kind` together with the alternative of `args` it requires. -/
inductive Command where
  | get (key : Int)
  | put (key value : Int)
  | addServer (info : ServerInfo)
  | removeServer (serverId : Int)
  deriving DecidableEq

namespace Command

/-- The kinds `submit` checks the role for. -/
def isClient : Command → Bool
  | .get _ | .put _ _ => true
  | .addServer _ | .removeServer _ => false

end Command

/-- `std::variant<getres_t, putres_t>`. -/
inductive Res where
  | value (v : Option Int)
  | flag (b : Bool)
  deriving DecidableEq

abbrev Handle := Nat

/-- `PromiseStore`: the promises still in the list, and the shared states that
have received a value. -/
structure PromiseStore where
  nextHandle : Handle := 0
  store : List Handle := []
  results : List (Handle × Res) := []

namespace PromiseStore

def insert (ps : PromiseStore) : PromiseStore × Handle :=
  ({ ps with nextHandle := ps.nextHandle + 1, store := ps.nextHandle :: ps.store },
    ps.nextHandle)

/-- `getAndRemove`, the promise being dropped without a value. -/
def getAndRemove (ps : PromiseStore) (it : Handle) : PromiseStore :=
  { ps with store := ps.store.erase it }

/-- `getAndRemove` followed by `set_value`. An iterator that was erased before
is dangling: nothing that is still in the list is reached through it. -/
def fulfil (ps : PromiseStore) (it : Handle) (res : Res) : PromiseStore :=
  if it ∈ ps.store then
    { ps with store := ps.store.erase it, results := (it, res) :: ps.results }
  else ps

/-- What `ft.get()` returns, once it does. -/
def future (ps : PromiseStore) (it : Handle) : Option Res :=
  (ps.results.find? (·.1 == it)).map (·.2)

end PromiseStore

structure RaftOp where
  command : Command
  promiseHandle : Option Handle
  deriving DecidableEq

/-- What the LevelDB instance holds, as a map (`LevelDBReal.Shows` relates the two); `ok` is the
`Status` LevelDB answers with. -/
abbrev Store := Int → Option Int

namespace Store

def get (db : Store) (key : Int) (ok : Bool) : Option Int :=
  if ok then db key else none

def put (db : Store) (key value : Int) (ok : Bool) : Store × Bool :=
  if ok then (Function.update db key (some value), true) else (db, false)

end Store

namespace RaftOp

def withoutPromise (op : RaftOp) : RaftOp := { op with promiseHandle := none }

/-- The switch of `Operation::execute`: the effect on the store and the result. -/
def run (op : RaftOp) (db : Store) (ok : Bool) : Store × Res :=
  match op.command with
  | .get key => (db, .value (db.get key ok))
  | .put key value => ((db.put key value ok).1, .flag (db.put key value ok).2)
  | .addServer _ | .removeServer _ => (db, .flag true)

/-- The promise part of `Operation::execute`. -/
def resolve (op : RaftOp) (ps : PromiseStore) (res : Res) : PromiseStore :=
  match op.promiseHandle with
  | some it => ps.fulfil it res
  | none => ps

/-- The value `Operation::abort` completes the promise with: a failed GET gets
the default-constructed variant, whose first alternative is the empty optional. -/
def abortResult (op : RaftOp) : Res :=
  match op.command with
  | .get _ => .value none
  | .put _ _ | .addServer _ | .removeServer _ => .flag false

def abort (op : RaftOp) (ps : PromiseStore) : PromiseStore :=
  op.resolve ps op.abortResult

@[simp] theorem withoutPromise_command (op : RaftOp) :
    op.withoutPromise.command = op.command := rfl

end RaftOp

structure LogEntry where
  term : Int
  op : RaftOp
  deriving DecidableEq

/-- `AppendEntriesParams::AppendLogEntry`. -/
structure AppendLogEntry where
  term : Int
  index : Int
  op : RaftOp
  deriving DecidableEq

structure AppendEntriesParams where
  term : Int
  leaderId : Int
  prevLogIndex : Int
  prevLogTerm : Int
  entries : List AppendLogEntry
  leaderCommit : Int
  deriving DecidableEq

structure AppendEntriesRet where
  term : Int
  success : Bool
  deriving DecidableEq

structure RequestVoteParams where
  candidateId : Int
  term : Int
  lastLogIndex : Int
  lastLogTerm : Int
  deriving DecidableEq

structure RequestVoteRet where
  term : Int
  voteGranted : Bool
  deriving DecidableEq

/-- `raft::ErrorCode`. -/
inductive ErrorCode where
  | ok
  | notLeader
  | prevNotCommittedTimeout
  | curNotCommittedTimeout
  | serverExists
  | serverNotFound
  | other
  deriving DecidableEq

structure AddServerParams where
  serverId : Int
  ip : String
  raftPort : Int
  dbPort : Int
  name : String
  deriving DecidableEq

/-- `AddServerRet` and `RemoveServerRet`, which have the same fields. -/
structure MembershipRet where
  errorCode : ErrorCode
  leaderAddr : String
  deriving DecidableEq

/-- `ohmydb::ErrorCode`. -/
inductive DbErrorCode where
  | ok
  | notLeader
  | keyNotFound
  deriving DecidableEq

/-- `ohmydb::Ret`. -/
structure Ret where
  errorCode : DbErrorCode
  leaderAddr : String
  value : Int
  deriving DecidableEq

end OhMyDb
