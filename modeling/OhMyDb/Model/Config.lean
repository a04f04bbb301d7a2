import Mathlib.Data.Int.Order.Basic
import Mathlib.Data.List.AList
import OhMyDb.Lib.Delimited
import OhMyDb.Lib.Keyed
import OhMyDb.Model.Decimal

/-!
The configuration file, read by `ParseConfig` and rewritten by the administration tool. A
character stands for a byte, and the servers have the widths of the C++ ones. Where the code
runs into undefined behaviour there is an error.
-/

namespace OhMyDb
namespace Config

abbrev Text := List Char

/-- `char[n]` with a string in it: the characters before the first NUL. -/
structure CharArray (n : Nat) where
  chars : Text
  fits : chars.length < n
  noNul : '\x00' ∉ chars

structure ServerInfo where
  id : Int32
  ip : CharArray 20
  raftPort : Int32
  dbPort : Int32
  name : CharArray 25

/-- `std::map<int32_t, ServerInfo>`, in the order of its keys. A server is stored under its own
id, by `ParseConfig` and by `main`. -/
@[ext] structure Servers where
  entries : List ServerInfo := []
  sorted : Keyed.Sorted (fun info => info.id.toInt) entries := by exact List.Pairwise.nil

namespace Servers

/-- `servers[server.id] = server`. -/
def assign (servers : Servers) (server : ServerInfo) : Servers where
  entries := Keyed.assign (fun info => info.id.toInt) server servers.entries
  sorted := servers.sorted.assign server

def erase (servers : Servers) (id : Int32) : Servers where
  entries := servers.entries.filter fun info => info.id ≠ id
  sorted := servers.sorted.sublist List.filter_sublist

end Servers

inductive Failure where
  | stoi (e : StoiError)
  /-- `tokens[i]` beyond the end of the vector. -/
  | noToken
  /-- `strcpy` beyond the end of the array. -/
  | overflow

/-- What `c_str` shows of a string. -/
def cStr (s : Text) : Text := s.takeWhile (· ≠ '\x00')

theorem cStr_noNul (s : Text) : '\x00' ∉ cStr s := by
  intro mem
  simpa using List.mem_takeWhile_imp mem

/-- `strcpy` of the `c_str` of a string. -/
def strcpy (n : Nat) (s : Text) : Except Failure (CharArray n) :=
  if fits : (cStr s).length < n then .ok ⟨cStr s, fits, cStr_noNul s⟩ else .error .overflow

/-- The loop that calls `getline`. -/
def getlines (delim : Char) (s : Text) : List Text := Delimited.fields delim s

/-- `header[token] = header.size()` for every token; the size is taken before the insertion. -/
def parseHeader (line : Text) : AList fun _ : Text => Nat :=
  (getlines ',' line).foldl (fun header token => header.insert token header.keys.length) ∅

/-- `tokens[header[column]]`; a column that is missing reads as 0. -/
def token (header : AList fun _ : Text => Nat) (tokens : List Text) (column : String) :
    Except Failure Text :=
  match tokens[(header.lookup column.toList).getD 0]? with
  | some token => .ok token
  | none => .error .noToken

def stoiToken (token : Text) : Except Failure Int32 :=
  (stoiInt (String.ofList token)).mapError .stoi

/-- The `id` of a server, which is counted where the file has no such column. -/
def parseId (header : AList fun _ : Text => Nat) (cntr : Nat) (tokens : List Text) :
    Except Failure (Int32 × Nat) :=
  if "id".toList ∉ header then .ok (Int32.ofNat cntr, cntr + 1)
  else do
    let id ← stoiToken (← token header tokens "id")
    pure (id, cntr)

/-- The body of the loop of `ParseConfig`, with `cntr`. -/
def parseServer (header : AList fun _ : Text => Nat) (cntr : Nat) (line : Text) :
    Except Failure (ServerInfo × Nat) := do
  let (id, cntr) ← parseId header cntr (getlines ',' line)
  let ip ← strcpy 20 (← token header (getlines ',' line) "intf_ip")
  let name ← strcpy 25 ((← token header (getlines ',' line) "name").take 20)
  let raftPort ← stoiToken (← token header (getlines ',' line) "raft_port")
  let dbPort ← stoiToken (← token header (getlines ',' line) "db_port")
  pure ({ id := id, ip := ip, raftPort := raftPort, dbPort := dbPort, name := name }, cntr)

/-- The loop of `ParseConfig`, which ends at the first empty line. -/
def parseServers (header : AList fun _ : Text => Nat) :
    Nat → List Text → Servers → Except Failure Servers
  | _, [], servers => .ok servers
  | cntr, line :: lines, servers =>
      if line.isEmpty then .ok servers
      else do
        let (server, cntr) ← parseServer header cntr line
        parseServers header cntr lines (servers.assign server)

def parseConfig (file : Text) : Except Failure Servers :=
  let lines := getlines '\n' file
  parseServers (parseHeader (lines.headD [])) 0 lines.tail {}

/-- The header line `WriteConfig` writes. -/
def header : Text := "id,name,intf_ip,raft_port,db_port".toList

/-- An `int` as `operator<<` writes it. -/
def decimal (n : Int32) : Text := (toString n.toInt).toList

/-- The line `WriteConfig` writes for a server. -/
def row (info : ServerInfo) : Text :=
  decimal info.id ++ ',' :: (info.name.chars ++ ',' :: (info.ip.chars ++ ',' ::
    (decimal info.raftPort ++ ',' :: decimal info.dbPort)))

/-- `Admin::WriteConfig`. -/
def writeConfig (servers : Servers) : Text :=
  (header :: servers.entries.map row).flatMap fun line => line ++ ['\n']

/-- What `Admin::AddServer` sends. -/
structure AddServerParams where
  serverId : Int32
  ip : CharArray 20
  raftPort : Int32
  dbPort : Int32
  name : CharArray 20

def addServerParams (id raftPort dbPort : Int32) (ip name : Text) :
    Except Failure AddServerParams := do
  let ip ← strcpy 20 ip
  let name ← strcpy 20 name
  pure { serverId := id, ip := ip, raftPort := raftPort, dbPort := dbPort, name := name }

/-- What `main` writes back once the cluster has added the server. -/
def add (servers : Servers) (id raftPort dbPort : Int32) (ip name : Text) :
    Except Failure Servers := do
  let _ ← addServerParams id raftPort dbPort ip name
  let ip ← strcpy 20 ip
  let name ← strcpy 25 name
  pure (servers.assign { id := id, ip := ip, raftPort := raftPort, dbPort := dbPort, name := name })

/-- What `main` writes back once the cluster has removed the server. -/
def rm (servers : Servers) (id : Int32) : Servers := servers.erase id

end Config
end OhMyDb
