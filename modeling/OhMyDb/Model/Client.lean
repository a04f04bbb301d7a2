import OhMyDb.Model.Operation

/-!
The client's side of a GET or PUT: the database service, its stub and the retry
loops of `ReplicatedDB`. An RPC is either answered or fails; a loop is given the
outcomes of its RPCs one by one, and is still waiting when they end before it does.
-/

namespace OhMyDb

structure PutResponse where
  errorCode : DbErrorCode
  leaderAddr : String
  deriving DecidableEq

structure GetResponse where
  errorCode : DbErrorCode
  leaderAddr : String
  value : Int
  deriving DecidableEq

namespace OhMyDBService

/-- `OhMyDBService::Put`, after `ReplicaManager::put`. -/
def put (ret : Ret) : PutResponse :=
  { errorCode := ret.errorCode, leaderAddr := ret.leaderAddr }

/-- `OhMyDBService::Get`, after `ReplicaManager::get`. -/
def get (ret : Ret) : GetResponse :=
  { errorCode := ret.errorCode, leaderAddr := ret.leaderAddr, value := ret.value }

end OhMyDBService

namespace OhMyDBClient

/-- `OhMyDBClient::Put`; the response has no field for the value. -/
def put (rpc : Option PutResponse) : Option Ret :=
  rpc.map fun response =>
    { errorCode := response.errorCode, leaderAddr := response.leaderAddr, value := -1 }

def get (rpc : Option GetResponse) : Option Ret :=
  rpc.map fun response =>
    { errorCode := response.errorCode, leaderAddr := response.leaderAddr,
      value := response.value }

end OhMyDBClient

/-- `channel` is the address the client's channel leads to. -/
structure ReplicatedDB where
  channel : String
  serverAddr : String
  serverInfo : IntMap ServerInfo

namespace ReplicatedDB

def MAX_TRIES : Nat := 1000

def dbAddr (info : ServerInfo) : String := info.ip ++ ":" ++ toString info.dbPort

/-- The constructor. `serverInfo[0]` inserts the server when it is missing. -/
def create (serverInfo : IntMap ServerInfo) : ReplicatedDB where
  channel := dbAddr (serverInfo.subscript 0 .zero).1
  serverAddr := ""
  serverInfo := (serverInfo.subscript 0 .zero).2

def updateChannel (db : ReplicatedDB) (serverAddr : String) : ReplicatedDB :=
  { db with serverAddr := serverAddr, channel := serverAddr }

/-- After a failed RPC the next server is tried. -/
def contactBackup (db : ReplicatedDB) (backupID : Nat) : ReplicatedDB × Nat :=
  let (info, serverInfo) := db.serverInfo.subscript backupID .zero
  ({ db with serverInfo := serverInfo }.updateChannel (dbAddr info),
    if backupID + 1 ≥ serverInfo.size then 0 else backupID + 1)

/-- The loop of `put`, with `iters` rounds left. -/
def putLoop : Nat → Nat → ReplicatedDB → List (Option PutResponse) →
    Option Bool × ReplicatedDB
  | 0, _, db, _ => (some false, db)
  | _ + 1, _, db, [] => (none, db)
  | iters + 1, backupID, db, rpc :: rpcs =>
      match OhMyDBClient.put rpc with
      | none => putLoop iters (db.contactBackup backupID).2 (db.contactBackup backupID).1 rpcs
      | some ret =>
          match ret.errorCode with
          | .notLeader => putLoop iters backupID (db.updateChannel ret.leaderAddr) rpcs
          | .keyNotFound => (some false, db)
          | .ok => (some (ret.value ≠ 0), db)

def put (db : ReplicatedDB) (rpcs : List (Option PutResponse)) : Option Bool × ReplicatedDB :=
  putLoop MAX_TRIES 0 db rpcs

/-- The loop of `get`, with `iters` rounds left. -/
def getLoop : Nat → Nat → ReplicatedDB → List (Option GetResponse) →
    Option (Option Int) × ReplicatedDB
  | 0, _, db, _ => (some none, db)
  | _ + 1, _, db, [] => (none, db)
  | iters + 1, backupID, db, rpc :: rpcs =>
      match OhMyDBClient.get rpc with
      | none => getLoop iters (db.contactBackup backupID).2 (db.contactBackup backupID).1 rpcs
      | some ret =>
          match ret.errorCode with
          | .notLeader => getLoop iters backupID (db.updateChannel ret.leaderAddr) rpcs
          | .keyNotFound => (some none, db)
          | .ok => (some (some ret.value), db)

def get (db : ReplicatedDB) (rpcs : List (Option GetResponse)) :
    Option (Option Int) × ReplicatedDB :=
  getLoop MAX_TRIES 0 db rpcs

end ReplicatedDB
end OhMyDb
