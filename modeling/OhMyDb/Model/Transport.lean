import OhMyDb.Lib.Records
import OhMyDb.Model.Operation

/-!
`AppendEntries` between two servers: the request `RaftClient` builds and what
`RaftService` makes of it; and `NetworkUpdate`, whose records travel likewise. Here
the records have the widths of the C++ ones, and `kind` and `args` are two fields.
-/

namespace OhMyDb
namespace Transport
open Records (Layout)

structure ServerInfo where
  id : Int32
  ip : Vector UInt8 20
  raftPort : Int32
  dbPort : Int32
  name : Vector UInt8 25

inductive OpType where
  | get
  | put
  | addServer
  | removeServer
  deriving DecidableEq

/-- `arg_t`; `rmserverarg_t` is the same type as `getarg_t`. -/
inductive Arg where
  | getarg (key : Int32)
  | putarg (kvp : Int32 × Int32)
  | addserverarg (info : ServerInfo)

namespace Arg

/-- `std::get<getarg_t>`, which throws where there is no value. -/
def getarg? : Arg → Option Int32
  | getarg key => some key
  | putarg _ | addserverarg _ => none

def putarg? : Arg → Option (Int32 × Int32)
  | putarg kvp => some kvp
  | getarg _ | addserverarg _ => none

def addserverarg? : Arg → Option ServerInfo
  | addserverarg info => some info
  | getarg _ | putarg _ => none

end Arg

structure Operation where
  kind : OpType
  args : Arg
  promiseHandle : Option Handle

structure AppendLogEntry where
  term : Int32
  index : Int32
  op : Operation

structure AppendEntriesParams where
  term : Int32
  leaderId : Int32
  prevLogIndex : Int32
  prevLogTerm : Int32
  entries : List AppendLogEntry
  leaderCommit : Int32

structure TransportEntry where
  term : Int32
  index : Int32
  kind : OpType
  arg1 : Int32
  arg2 : Int32
  serverInfo : ServerInfo

/-- `raftproto::AppendEntriesRequest`. -/
structure AppendEntriesRequest where
  term : Int32
  leaderId : Int32
  prevLogIndex : Int32
  prevLogTerm : Int32
  entries : List UInt8
  leaderCommit : Int32

/-- The switch of `RaftClient::AppendEntries`; the local `serverInfo` holds anything
before it is assigned. -/
def AppendLogEntry.ship (entry : AppendLogEntry) (serverInfo : ServerInfo) :
    Option TransportEntry :=
  let shipped (arg1 arg2 : Int32) (serverInfo : ServerInfo) : TransportEntry :=
    { term := entry.term, index := entry.index, kind := entry.op.kind, arg1 := arg1, arg2 := arg2,
      serverInfo := serverInfo }
  match entry.op.kind with
  | .get => entry.op.args.getarg?.map fun key => shipped key 0 serverInfo
  | .put => entry.op.args.putarg?.map fun kvp => shipped kvp.1 kvp.2 serverInfo
  | .addServer => entry.op.args.addserverarg?.map fun info => shipped 0 0 info
  | .removeServer => entry.op.args.getarg?.map fun serverId => shipped serverId 0 serverInfo

/-- The request of `RaftClient::AppendEntries`, where no `std::get` throws. -/
def buildRequest (L : Layout TransportEntry) (uninitialised : Nat → ServerInfo)
    (args : AppendEntriesParams) : Option AppendEntriesRequest :=
  let shipped := args.entries.zipIdx.mapM fun (entry, i) => entry.ship (uninitialised i)
  shipped.map fun entriesToShip =>
    { term := args.term
      leaderId := args.leaderId
      prevLogIndex := args.prevLogIndex
      prevLogTerm := args.prevLogTerm
      entries := L.encodeAll entriesToShip
      leaderCommit := args.leaderCommit }

/-- The body of the loop of `RaftService::AppendEntries`. -/
def TransportEntry.unpack (entry : TransportEntry) : AppendLogEntry :=
  let args : Arg :=
    if entry.kind = .get then .getarg entry.arg1
    else if entry.kind = .put then .putarg (entry.arg1, entry.arg2)
    else if entry.kind = .addServer then .addserverarg entry.serverInfo
    else .getarg entry.arg1
  { term := entry.term
    index := entry.index
    op := { kind := entry.kind, args := args, promiseHandle := none } }

/-- `param` of `RaftService::AppendEntries`. -/
def decodeRequest (L : Layout TransportEntry) (request : AppendEntriesRequest) :
    AppendEntriesParams where
  term := request.term
  leaderId := request.leaderId
  prevLogIndex := request.prevLogIndex
  prevLogTerm := request.prevLogTerm
  entries := (L.walk (fun i => i < request.entries.length) request.entries
    (request.entries.length + 1) 0).map TransportEntry.unpack
  leaderCommit := request.leaderCommit

/-- The layout of the packed struct, integers in little-endian order. -/
def packed : Layout TransportEntry :=
  let kind : Layout OpType := Layout.int32.through
    (fun | .get => 0 | .put => 1 | .addServer => 2 | .removeServer => 3)
    (fun n => if n = 0 then .get else if n = 1 then .put else if n = 2 then .addServer
      else .removeServer)
    (by intro kind; cases kind <;> rfl)
  let serverInfo : Layout ServerInfo :=
    (Layout.int32.prod
      ((Layout.chars 20 (by decide) (by decide)).prod
        (Layout.int32.prod
          (Layout.int32.prod (Layout.chars 25 (by decide) (by decide)) (by decide))
          (by decide))
        (by decide))
      (by decide)).through
      (fun x => (x.id, x.ip, x.raftPort, x.dbPort, x.name))
      (fun x => ⟨x.1, x.2.1, x.2.2.1, x.2.2.2.1, x.2.2.2.2⟩)
      fun _ => rfl
  (Layout.int32.prod
    (Layout.int32.prod
      (kind.prod
        (Layout.int32.prod
          (Layout.int32.prod serverInfo (by decide))
          (by decide))
        (by decide))
      (by decide))
    (by decide)).through
    (fun x => (x.term, x.index, x.kind, x.arg1, x.arg2, x.serverInfo))
    (fun x => ⟨x.1, x.2.1, x.2.2.1, x.2.2.2.1, x.2.2.2.2.1, x.2.2.2.2.2⟩)
    fun _ => rfl

structure PeerNetworkConfig where
  peerId : Int32
  isEnabled : Bool
  isDelayed : Bool
  delayMs : Int32

/-- `raftproto::NetworkUpdateRequest`. -/
structure NetworkUpdateRequest where
  numEntries : Int32
  data : List UInt8

/-- The request of `RaftClient::NetworkUpdate`. -/
def buildUpdate (L : Layout PeerNetworkConfig) (pVec : List PeerNetworkConfig) :
    NetworkUpdateRequest where
  numEntries := .ofNat pVec.length
  data := L.encodeAll pVec

/-- `pVec` of `RaftService::NetworkUpdate`; `num_entries` is not read. -/
def decodeUpdate (L : Layout PeerNetworkConfig) (request : NetworkUpdateRequest) :
    List PeerNetworkConfig :=
  L.walk (fun i => i < request.data.length) request.data (request.data.length + 1) 0

def packedConfig : Layout PeerNetworkConfig :=
  (Layout.int32.prod
    (Layout.bool.prod (Layout.bool.prod Layout.int32 (by decide)) (by decide))
    (by decide)).through
    (fun x => (x.peerId, x.isEnabled, x.isDelayed, x.delayMs))
    (fun x => ⟨x.1, x.2.1, x.2.2.1, x.2.2.2⟩)
    fun _ => rfl

/-! What these records are to the replicas. -/

/-- An array of characters up to its first zero. -/
def cString {n : Nat} (v : Vector UInt8 n) : String :=
  String.ofList ((v.toList.takeWhile (· ≠ 0)).map fun b => Char.ofNat b.toNat)

def ServerInfo.value (info : ServerInfo) : OhMyDb.ServerInfo where
  id := info.id.toInt
  ip := cString info.ip
  raftPort := info.raftPort.toInt
  dbPort := info.dbPort.toInt
  name := cString info.name

/-- The command, where `args` has the alternative that `kind` requires. -/
def Operation.command (op : Operation) : Option Command :=
  match op.kind, op.args with
  | .get, .getarg key => some (.get key.toInt)
  | .put, .putarg kvp => some (.put kvp.1.toInt kvp.2.toInt)
  | .addServer, .addserverarg info => some (.addServer info.value)
  | .removeServer, .getarg serverId => some (.removeServer serverId.toInt)
  | _, _ => none

def AppendLogEntry.value (entry : AppendLogEntry) : Option OhMyDb.AppendLogEntry :=
  entry.op.command.map fun command =>
    { term := entry.term.toInt, index := entry.index.toInt,
      op := ⟨command, entry.op.promiseHandle⟩ }

def AppendEntriesParams.value (args : AppendEntriesParams) : Option OhMyDb.AppendEntriesParams :=
  (args.entries.mapM AppendLogEntry.value).map fun entries =>
    { term := args.term.toInt
      leaderId := args.leaderId.toInt
      prevLogIndex := args.prevLogIndex.toInt
      prevLogTerm := args.prevLogTerm.toInt
      entries := entries
      leaderCommit := args.leaderCommit.toInt }

end Transport
end OhMyDb
