import OhMyDb.Model.Cluster

/-!
The administrator's side of a change of membership: `Admin::AddServer` and
`Admin::RemoveServer`, the loops of RPCs they make, and the cluster that serves them.
An RPC that fails may have reached its server, or may still do so; what other
administrators do is among the cluster's own steps.
-/

namespace OhMyDb

/-- `Admin::AddServer` with the parameters of its RPCs, or `Admin::RemoveServer`. -/
inductive AdminCall where
  | addServer (param : AddServerParams)
  | removeServer (id : Int)
  deriving DecidableEq

/-- The RPC, served by replica `r`. -/
def AdminCall.request (r : Int) : AdminCall → Action
  | .addServer param => .addServer r param
  | .removeServer id => .removeServer r id

/-- Where the call stands. An RPC that has been served is call `j` of replica `r`; the
last error code is kept with the result. -/
inductive AdminStage where
  | pinging
  | calling
  | served (r : Int) (j : Nat)
  | returned (result : Bool) (errorCode : Option ErrorCode)
  deriving DecidableEq

/-- `client` is the address the channel of `client_` leads to. -/
structure Admin where
  call : AdminCall
  servers : IntMap ServerInfo
  client : String
  iters : Nat
  serverId : Nat := 0
  stage : AdminStage

namespace Admin

def MAX_TRIES : Nat := 1000

def raftAddr (info : ServerInfo) : String := info.ip ++ ":" ++ toString info.raftPort

/-- `SwitchClient` to a server of the map. `servers_[server_id]` inserts it when it is
missing. -/
def switchServer (a : Admin) (serverId : Int) : Admin :=
  let (info, servers) := a.servers.subscript serverId .zero
  { a with servers := servers, client := raftAddr info }

/-- `SwitchClient` to an address. -/
def switchAddr (a : Admin) (addr : String) : Admin := { a with client := addr }

/-- `while ( iters-- )`. -/
def loop (a : Admin) : Admin :=
  match a.iters with
  | 0 => { a with stage := .returned false none }
  | iters + 1 => { a with iters := iters, stage := .calling }

/-- `AddServer` up to the ping of the new server. -/
def addServer (servers : IntMap ServerInfo) (param : AddServerParams) : Admin where
  call := .addServer param
  servers := servers
  client := param.ip ++ ":" ++ toString param.raftPort
  iters := MAX_TRIES
  stage := .pinging

/-- The ping has been answered or has failed. -/
def pinged (a : Admin) (ok : Bool) : Admin :=
  if ok then (a.switchServer a.serverId).loop else { a with stage := .returned false none }

/-- `RemoveServer` up to its first RPC. -/
def removeServer (servers : IntMap ServerInfo) (id : Int) : Admin :=
  let a : Admin :=
    { call := .removeServer id
      servers := servers
      client := "10.10.1.1:1234"
      iters := MAX_TRIES
      stage := .calling }
  (a.switchServer a.serverId).loop

def start (servers : IntMap ServerInfo) : AdminCall → Admin
  | .addServer param => addServer servers param
  | .removeServer id => removeServer servers id

/-- The RPC has returned no value: the next server is tried. -/
def noValue (a : Admin) : Admin :=
  let a := { a with serverId := a.serverId + 1 }
  if a.serverId ≥ a.servers.size then { a with stage := .returned false none }
  else (a.switchServer a.serverId).loop

/-- The switch of `AddServer`. -/
def addServerRet (a : Admin) (ret : MembershipRet) : Option Admin :=
  match ret.errorCode with
  | .ok | .serverExists => some { a with stage := .returned true (some ret.errorCode) }
  | .notLeader => some (a.switchAddr ret.leaderAddr).loop
  | .prevNotCommittedTimeout | .curNotCommittedTimeout | .other => some a.loop
  | .serverNotFound => none  -- `__builtin_unreachable`

/-- The switch of `RemoveServer`. -/
def removeServerRet (a : Admin) (ret : MembershipRet) : Option Admin :=
  match ret.errorCode with
  | .ok => some { a with stage := .returned true (some ret.errorCode) }
  | .notLeader => some (a.switchAddr ret.leaderAddr).loop
  | .prevNotCommittedTimeout | .curNotCommittedTimeout | .other => some a.loop
  | .serverNotFound => some { a with stage := .returned false (some ret.errorCode) }
  | .serverExists => none  -- `__builtin_unreachable`

/-- The RPC has returned `ret`. -/
def value (a : Admin) (ret : MembershipRet) : Option Admin :=
  match a.call with
  | .addServer _ => a.addServerRet ret
  | .removeServer _ => a.removeServerRet ret

end Admin

/-- What `RaftManager::AddServer` or `RemoveServer` has returned. -/
def Call.membershipRet : Call → Option MembershipRet
  | .addReturned ret | .removeReturned ret => some ret
  | _ => none

/-- The cluster and one call of an administrator. `attempts` are the calls in the cluster
that its RPCs have become, newest first, and `lost` the addresses of the RPCs that have
failed and have reached no server so far. -/
structure Administration where
  cluster : Cluster
  admin : Admin
  attempts : List (Int × Nat) := []
  lost : List String := []

inductive AdminAction where
  | cluster (a : Action)
  | ping (ok : Bool)
  | serve
  | serveLost (addr : String)
  | fail
  | value

namespace Administration

/-- The servers are launched, and an administrator who knows the servers `known`. -/
def launch (servers : List Int) (config : Int → IntMap ServerInfo) (known : IntMap ServerInfo)
    (call : AdminCall) : Administration where
  cluster := .launch servers config
  admin := .start known call

/-- An RPC reaches the replica that listens at `addr`, and becomes a call there. -/
def arrive (listens : String → Option Int) (s : Administration) (addr : String) :
    Option (Int × Nat × Administration) :=
  (listens addr).bind fun r =>
    (s.cluster.step (s.admin.call.request r)).map fun c =>
      let j := (s.cluster.node r).calls.length
      (r, j, { s with cluster := c, attempts := (r, j) :: s.attempts })

/-- One step: of the cluster, of the administrator, or of an RPC between them. -/
def step (listens : String → Option Int) (s : Administration) :
    AdminAction → Option Administration
  | .cluster a => (s.cluster.step a).map fun c => { s with cluster := c }
  | .ping ok =>
      match s.admin.stage with
      | .pinging => some { s with admin := s.admin.pinged ok }
      | _ => none
  | .serve =>
      match s.admin.stage with
      | .calling => (s.arrive listens s.admin.client).map fun (r, j, s) =>
          { s with admin := { s.admin with stage := .served r j } }
      | _ => none
  | .serveLost addr =>
      if addr ∈ s.lost then (s.arrive listens addr).map fun (_, _, s) =>
        { s with lost := s.lost.erase addr }
      else none
  | .fail =>
      match s.admin.stage with
      | .calling => some { s with admin := s.admin.noValue, lost := s.admin.client :: s.lost }
      | .served _ _ => some { s with admin := s.admin.noValue }
      | _ => none
  | .value =>
      match s.admin.stage with
      | .served r j =>
          ((s.cluster.node r).calls[j]?.bind Call.membershipRet).bind fun ret =>
            (s.admin.value ret).map fun a => { s with admin := a }
      | _ => none

end Administration
end OhMyDb
