import OhMyDb.Model.Operation

/-!
The prototype: the `ConsensusModule` of `raftv/raft.go`, and the modules `startUp`
creates with the RPCs between them. Each step is what one goroutine does between
taking and releasing `cm.mu`. An RPC is served once at most, before or after its
caller has given it up, and its reply taken once at most.
-/

namespace OhMyDb
namespace Prototype
variable {α : Type}

inductive NodeState where
  | follower
  | candidate
  | leader
  | unknown
  deriving DecidableEq

structure LogEntry (α : Type) where
  command : α
  term : Int
  deriving DecidableEq

structure RequestVoteArgs where
  term : Int
  candidateId : Int
  lastLogIndex : Int
  lastLogTerm : Int

structure RequestVoteReply where
  term : Int := 0
  voteGranted : Bool := false
  deriving DecidableEq

structure AppendEntriesArgs (α : Type) where
  term : Int
  leaderId : Int
  prevLogIndex : Int
  prevLogTerm : Int
  entries : List (LogEntry α)
  leaderCommit : Int

structure AppendEntriesReply where
  term : Int := 0
  success : Bool := false
  deriving DecidableEq

/-- A goroutine of `startElection`. -/
structure VoteCall where
  peerId : Int
  args : Option RequestVoteArgs := none
  reply : Option RequestVoteReply := none
  returned : Bool := false

/-- A call of `startElection`, with the variables its goroutines share. -/
structure Election where
  savedCurrentTerm : Int
  votesReceived : Int := 1
  calls : List VoteCall

/-- A goroutine of `leaderSendHeartbeats`. The peer's `reply` has been `received` once
`Call` has returned without an error. -/
structure Heartbeat (α : Type) where
  peerId : Int
  savedCurrentTerm : Int
  ni : Int := 0
  args : Option (AppendEntriesArgs α) := none
  reply : Option AppendEntriesReply := none
  returned : Bool := false
  received : Option AppendEntriesReply := none

def Heartbeat.receive (reply : AppendEntriesReply) (hb : Heartbeat α) : Heartbeat α :=
  { hb with returned := true, received := some reply }

/-- A goroutine that runs `runElectionTimer`; the first one waits for `ready` before. -/
inductive Timer where
  | waiting
  | starting
  | running (timeoutDuration termStarted : Int)
  | exited

/-- A commit, with what it was decided on: the log and the peers counted. -/
structure Commit (α : Type) where
  term : Int
  log : List (LogEntry α)
  commitIndex : Int
  counted : List Int

/-- What a module has done so far, newest first. No step reads it. -/
inductive Event (α : Type) where
  | voted (candidateId term : Int)
  | startLeader (term : Int)
  | commit (commit : Commit α)

structure ConsensusModule (α : Type) where
  id : Int
  peerIds : List Int
  currentTerm : Int := 0
  votedFor : Int := -1
  log : List (LogEntry α) := []
  state : NodeState := .follower
  electionResetEvent : Int := 0
  commitIndex : Int := -1
  nextIndex : IntMap Int := ∅
  matchIndex : IntMap Int := ∅
  timers : List Timer := [.waiting]
  elections : List Election := []
  heartbeats : List (Heartbeat α) := []
  hist : List (Event α) := []

/-- `log[i]`, where it is inside the slice. -/
def at? (log : List (LogEntry α)) (i : Int) : Option (LogEntry α) :=
  if 0 ≤ i then log[i.toNat]? else none

def lastLogIndex (log : List (LogEntry α)) : Int := log.length - 1

def lastLogTerm (log : List (LogEntry α)) : Int :=
  match log.getLast? with
  | some e => e.term
  | none => -1

/-- `m[k]`, which is 0 where there is no key. -/
def get (m : IntMap Int) (k : Int) : Int := (m.lookup k).getD 0

/-- The comparison of the two logs in `RequestVote`. -/
def upToDate (args : RequestVoteArgs) (log : List (LogEntry α)) : Prop :=
  args.lastLogTerm > lastLogTerm log ∨
    (args.lastLogTerm = lastLogTerm log ∧ args.lastLogIndex ≥ lastLogIndex log)

instance (args : RequestVoteArgs) (log : List (LogEntry α)) : Decidable (upToDate args log) :=
  inferInstanceAs (Decidable (_ ∨ _))

/-- How far the loop of `AppendEntries` advances: both indices move while the terms agree. -/
def matching : List (LogEntry α) → List (LogEntry α) → Nat
  | l :: ls, e :: es => if l.term ≠ e.term then 0 else matching ls es + 1
  | _, _ => 0

/-- The log once the previous entry has been found to match. -/
def merge (log : List (LogEntry α)) (logInsertIndex : Nat) (entries : List (LogEntry α)) :
    List (LogEntry α) :=
  let newEntriesIndex := matching (log.drop logInsertIndex) entries
  if newEntriesIndex < entries.length then
    log.take (logInsertIndex + newEntriesIndex) ++ entries.drop newEntriesIndex
  else log

/-- The check of the previous entry in `AppendEntries`. -/
def prevMatches (log : List (LogEntry α)) (args : AppendEntriesArgs α) : Prop :=
  args.prevLogIndex = -1 ∨
    (args.prevLogIndex < log.length ∧
      (at? log args.prevLogIndex).map (·.term) = some args.prevLogTerm)

instance (log : List (LogEntry α)) (args : AppendEntriesArgs α) :
    Decidable (prevMatches log args) :=
  inferInstanceAs (Decidable (_ ∨ _))

namespace ConsensusModule

def becomeFollower (cm : ConsensusModule α) (term now : Int) : ConsensusModule α :=
  { cm with
    state := .follower
    currentTerm := term
    votedFor := -1
    electionResetEvent := now
    timers := cm.timers ++ [.starting] }

def startElection (cm : ConsensusModule α) (now : Int) : ConsensusModule α :=
  { cm with
    state := .candidate
    currentTerm := cm.currentTerm + 1
    electionResetEvent := now
    votedFor := cm.id
    elections := cm.elections ++ [{
      savedCurrentTerm := cm.currentTerm + 1
      calls := cm.peerIds.map fun peerId => { peerId := peerId } }]
    timers := cm.timers ++ [.starting]
    hist := .voted cm.id (cm.currentTerm + 1) :: cm.hist }

def startLeader (cm : ConsensusModule α) : ConsensusModule α :=
  { cm with state := .leader, hist := .startLeader cm.currentTerm :: cm.hist }

def stop (cm : ConsensusModule α) : ConsensusModule α :=
  { cm with state := .unknown }

def submit (cm : ConsensusModule α) (command : α) : ConsensusModule α :=
  if cm.state = .leader then
    { cm with log := cm.log ++ [{ command := command, term := cm.currentTerm }] }
  else cm

/-! Serving RPCs. -/

/-- The module when `RequestVote` or `AppendEntries` has looked at the term. -/
def observeTerm (cm : ConsensusModule α) (term now : Int) : ConsensusModule α :=
  if term > cm.currentTerm then cm.becomeFollower term now else cm

def grantsVote (cm : ConsensusModule α) (args : RequestVoteArgs) : Prop :=
  cm.currentTerm = args.term ∧ (cm.votedFor = -1 ∨ cm.votedFor = args.candidateId) ∧
    upToDate args cm.log

instance (cm : ConsensusModule α) (args : RequestVoteArgs) : Decidable (cm.grantsVote args) :=
  inferInstanceAs (Decidable (_ ∧ _))

def requestVote (cm : ConsensusModule α) (args : RequestVoteArgs) (now : Int) :
    ConsensusModule α × RequestVoteReply :=
  if cm.state = .unknown then (cm, {})
  else
    let cm := cm.observeTerm args.term now
    if cm.grantsVote args then
      ({ cm with
          votedFor := args.candidateId
          electionResetEvent := now
          hist := .voted args.candidateId cm.currentTerm :: cm.hist },
        { term := cm.currentTerm, voteGranted := true })
    else (cm, { term := cm.currentTerm, voteGranted := false })

/-- The module when `AppendEntries` has found the sender to be the leader of the term. -/
def observeLeader (cm : ConsensusModule α) (term now : Int) : ConsensusModule α :=
  { (if cm.state ≠ .follower then cm.becomeFollower term now else cm) with
    electionResetEvent := now }

def appendEntries (cm : ConsensusModule α) (args : AppendEntriesArgs α) (now : Int) :
    ConsensusModule α × AppendEntriesReply :=
  if cm.state = .unknown then (cm, {})
  else
    let cm := cm.observeTerm args.term now
    if args.term = cm.currentTerm then
      let cm := cm.observeLeader args.term now
      if prevMatches cm.log args then
        ({ cm with log := merge cm.log (args.prevLogIndex + 1).toNat args.entries },
          { term := cm.currentTerm, success := true })
      else (cm, { term := cm.currentTerm, success := false })
    else (cm, { term := cm.currentTerm, success := false })

/-! Goroutines. -/

/-- One step of an election timer. -/
def timerStep (cm : ConsensusModule α) (k : Nat) (now electionTimeout : Int) :
    Option (ConsensusModule α) :=
  match cm.timers[k]? with
  | some .waiting => some { cm with
      electionResetEvent := now
      timers := cm.timers.set k .starting }
  | some .starting => some { cm with
      timers := cm.timers.set k (.running electionTimeout cm.currentTerm) }
  | some (.running timeoutDuration termStarted) =>
      if cm.state ≠ .candidate ∧ cm.state ≠ .follower then
        some { cm with timers := cm.timers.set k .exited }
      else if termStarted ≠ cm.currentTerm then
        some { cm with timers := cm.timers.set k .exited }
      else if now - cm.electionResetEvent ≥ timeoutDuration then
        some ({ cm with timers := cm.timers.set k .exited }.startElection now)
      else some cm
  | _ => none

def updateElection (cm : ConsensusModule α) (e : Nat) (f : Election → Election) :
    ConsensusModule α :=
  { cm with elections := cm.elections.modify e f }

def updateVoteCall (cm : ConsensusModule α) (e k : Nat) (f : VoteCall → VoteCall) :
    ConsensusModule α :=
  cm.updateElection e fun el => { el with calls := el.calls.modify k f }

def updateHeartbeat (cm : ConsensusModule α) (k : Nat) (f : Heartbeat α → Heartbeat α) :
    ConsensusModule α :=
  { cm with heartbeats := cm.heartbeats.modify k f }

def voteCall? (cm : ConsensusModule α) (e k : Nat) : Option (Election × VoteCall) :=
  cm.elections[e]?.bind fun el => el.calls[k]?.map fun call => (el, call)

/-- The request a goroutine of `startElection` sends. -/
def requestVoteArgs (cm : ConsensusModule α) (savedCurrentTerm : Int) : RequestVoteArgs where
  term := savedCurrentTerm
  candidateId := cm.id
  lastLogIndex := Prototype.lastLogIndex cm.log
  lastLogTerm := Prototype.lastLogTerm cm.log

def voteSend (cm : ConsensusModule α) (e k : Nat) : Option (ConsensusModule α) :=
  match cm.voteCall? e k with
  | some (el, call) =>
      if call.args.isNone then
        some (cm.updateVoteCall e k fun call =>
          { call with args := some (cm.requestVoteArgs el.savedCurrentTerm) })
      else none
  | none => none

/-- The vote is counted, and may be the one that was missing. -/
def countVote (cm : ConsensusModule α) (e : Nat) (el : Election) : ConsensusModule α :=
  let cm := cm.updateElection e fun el => { el with votesReceived := el.votesReceived + 1 }
  if (el.votesReceived + 1) * 2 > cm.peerIds.length + 1 then cm.startLeader else cm

/-- What a goroutine of `startElection` does with a reply. -/
def voteReply (cm : ConsensusModule α) (e : Nat) (el : Election) (reply : RequestVoteReply)
    (now : Int) : ConsensusModule α :=
  if cm.state ≠ .candidate then cm
  else if reply.term > el.savedCurrentTerm then cm.becomeFollower reply.term now
  else if reply.term = el.savedCurrentTerm ∧ reply.voteGranted = true then cm.countVote e el
  else cm

def voteReturn (cm : ConsensusModule α) (e k : Nat) (now : Int) : Option (ConsensusModule α) :=
  match cm.voteCall? e k with
  | some (el, call) =>
      match call.reply with
      | some reply =>
          if call.returned = false then
            some ((cm.voteReply e el reply now).updateVoteCall e k fun call =>
              { call with returned := true })
          else none
      | none => none
  | none => none

/-- The RPC fails: the goroutine returns. -/
def voteFail (cm : ConsensusModule α) (e k : Nat) : Option (ConsensusModule α) :=
  match cm.voteCall? e k with
  | some (_, call) =>
      if call.args.isSome ∧ call.returned = false then
        some (cm.updateVoteCall e k fun call => { call with returned := true })
      else none
  | none => none

/-- A round of the leader's loop, up to the start of its goroutines. -/
def leaderSendHeartbeats (cm : ConsensusModule α) : ConsensusModule α :=
  if cm.state ≠ .leader then cm
  else { cm with
    heartbeats := cm.heartbeats ++ cm.peerIds.map fun peerId =>
      { peerId := peerId, savedCurrentTerm := cm.currentTerm } }

def appendEntriesArgs (cm : ConsensusModule α) (savedCurrentTerm ni : Int) :
    AppendEntriesArgs α where
  term := savedCurrentTerm
  leaderId := cm.id
  prevLogIndex := ni - 1
  prevLogTerm := ((at? cm.log (ni - 1)).map (·.term)).getD (-1)
  entries := cm.log.drop ni.toNat
  leaderCommit := cm.commitIndex

/-- A goroutine reads the log and sends its request. Where `ni` is not inside the log
the slice expressions panic. -/
def heartbeatSend (cm : ConsensusModule α) (k : Nat) : Option (ConsensusModule α) :=
  match cm.heartbeats[k]? with
  | some hb =>
      let ni := get cm.nextIndex hb.peerId
      if hb.args.isNone ∧ 0 ≤ ni ∧ ni ≤ cm.log.length then
        some (cm.updateHeartbeat k fun hb =>
          { hb with ni := ni, args := some (cm.appendEntriesArgs hb.savedCurrentTerm ni) })
      else none
  | none => none

/-- The peers that `matchCount` counts for index `i`. -/
def counted (cm : ConsensusModule α) (i : Int) : List Int :=
  cm.peerIds.filter fun peerId => get cm.matchIndex peerId ≥ i

/-- The body of the commit loop. -/
def commitStep (cm : ConsensusModule α) (i : Int) : ConsensusModule α :=
  if (at? cm.log i).map (·.term) = some cm.currentTerm then
    if (1 + (cm.counted i).length) * 2 > cm.peerIds.length + 1 then
      { cm with
        commitIndex := i
        hist := .commit ⟨cm.currentTerm, cm.log, i, cm.counted i⟩ :: cm.hist }
    else cm
  else cm

def commitLoop (cm : ConsensusModule α) : ConsensusModule α :=
  (List.range (cm.log.length - (cm.commitIndex + 1)).toNat).foldl
    (fun x (j : Nat) => x.commitStep (cm.commitIndex + 1 + j)) cm

/-- What a goroutine of `leaderSendHeartbeats` does with a reply. -/
def heartbeatReply (cm : ConsensusModule α) (hb : Heartbeat α) (numEntries : Nat)
    (reply : AppendEntriesReply) (now : Int) : ConsensusModule α :=
  if reply.term > hb.savedCurrentTerm then cm.becomeFollower reply.term now
  else if cm.state = .leader ∧ hb.savedCurrentTerm = reply.term then
    if reply.success = true then
      { cm with
        nextIndex := cm.nextIndex.insert hb.peerId (hb.ni + numEntries)
        matchIndex := cm.matchIndex.insert hb.peerId (hb.ni + numEntries - 1) }.commitLoop
    else { cm with nextIndex := cm.nextIndex.insert hb.peerId (hb.ni - 1) }
  else cm

def heartbeatReturn (cm : ConsensusModule α) (k : Nat) (now : Int) :
    Option (ConsensusModule α) :=
  match cm.heartbeats[k]? with
  | some hb =>
      match hb.args, hb.reply with
      | some args, some reply =>
          if hb.returned = false then
            some ((cm.updateHeartbeat k (Heartbeat.receive reply)).heartbeatReply hb
              args.entries.length reply now)
          else none
      | _, _ => none
  | none => none

def heartbeatFail (cm : ConsensusModule α) (k : Nat) : Option (ConsensusModule α) :=
  match cm.heartbeats[k]? with
  | some hb =>
      if hb.args.isSome ∧ hb.returned = false then
        some (cm.updateHeartbeat k fun hb => { hb with returned := true })
      else none
  | none => none

end ConsensusModule

/-- The modules, by their ids. -/
structure Network (α : Type) where
  servers : List Int
  node : Int → ConsensusModule α

/-- One atomic step. `i` is the module whose goroutine makes it, or has sent the request
that is served; `e` and `k` pick the goroutine, and `now` is what the clock reads. -/
inductive Action (α : Type) where
  | timerStep (i : Int) (k : Nat) (now electionTimeout : Int)
  | voteSend (i : Int) (e k : Nat)
  | voteServe (i : Int) (e k : Nat) (now : Int)
  | voteReturn (i : Int) (e k : Nat) (now : Int)
  | voteFail (i : Int) (e k : Nat)
  | leaderSendHeartbeats (i : Int)
  | heartbeatSend (i : Int) (k : Nat)
  | heartbeatServe (i : Int) (k : Nat) (now : Int)
  | heartbeatReturn (i : Int) (k : Nat) (now : Int)
  | heartbeatFail (i : Int) (k : Nat)
  | submit (i : Int) (command : α)
  | stop (i : Int)

def Action.node : Action α → Int
  | timerStep i _ _ _ | voteSend i _ _ | voteServe i _ _ _ | voteReturn i _ _ _ | voteFail i _ _
  | leaderSendHeartbeats i | heartbeatSend i _ | heartbeatServe i _ _ | heartbeatReturn i _ _
  | heartbeatFail i _ | submit i _ | stop i => i

namespace Network

/-- `startUp`: every server is given the ids of all others. -/
def startUp (α : Type) (n : Nat) : Network α where
  servers := (List.range n).map Int.ofNat
  node i := { id := i, peerIds := ((List.range n).map Int.ofNat).filter (· ≠ i) }

def set (s : Network α) (i : Int) (cm : ConsensusModule α) : Network α :=
  { s with node := Function.update s.node i cm }

/-- A step that concerns module `i` only. -/
def locally (s : Network α) (i : Int) (f : ConsensusModule α → Option (ConsensusModule α)) :
    Option (Network α) :=
  (f (s.node i)).map (s.set i)

/-- The request of a goroutine of `startElection` is served by the peer. -/
def voteServe (s : Network α) (i : Int) (e k : Nat) (now : Int) : Option (Network α) :=
  match (s.node i).voteCall? e k with
  | some (_, call) =>
      match call.args with
      | some args =>
          if call.reply.isNone ∧ call.peerId ∈ s.servers then
            let (cm, reply) := (s.node call.peerId).requestVote args now
            let s := s.set call.peerId cm
            some (s.set i ((s.node i).updateVoteCall e k fun call =>
              { call with reply := some reply }))
          else none
      | none => none
  | none => none

/-- The request of a goroutine of `leaderSendHeartbeats` is served by the peer. -/
def heartbeatServe (s : Network α) (i : Int) (k : Nat) (now : Int) : Option (Network α) :=
  match (s.node i).heartbeats[k]? with
  | some hb =>
      match hb.args with
      | some args =>
          if hb.reply.isNone ∧ hb.peerId ∈ s.servers then
            let (cm, reply) := (s.node hb.peerId).appendEntries args now
            let s := s.set hb.peerId cm
            some (s.set i ((s.node i).updateHeartbeat k fun hb =>
              { hb with reply := some reply }))
          else none
      | none => none
  | none => none

def act (s : Network α) : Action α → Option (Network α)
  | .timerStep i k now timeout => s.locally i fun cm => cm.timerStep k now timeout
  | .voteSend i e k => s.locally i fun cm => cm.voteSend e k
  | .voteServe i e k now => s.voteServe i e k now
  | .voteReturn i e k now => s.locally i fun cm => cm.voteReturn e k now
  | .voteFail i e k => s.locally i fun cm => cm.voteFail e k
  | .leaderSendHeartbeats i => s.locally i fun cm => some cm.leaderSendHeartbeats
  | .heartbeatSend i k => s.locally i fun cm => cm.heartbeatSend k
  | .heartbeatServe i k now => s.heartbeatServe i k now
  | .heartbeatReturn i k now => s.locally i fun cm => cm.heartbeatReturn k now
  | .heartbeatFail i k => s.locally i fun cm => cm.heartbeatFail k
  | .submit i command => s.locally i fun cm => some (cm.submit command)
  | .stop i => s.locally i fun cm => some cm.stop

/-- One step of the network; only the servers that `startUp` has created run. -/
def step (s : Network α) (a : Action α) : Option (Network α) :=
  if a.node ∈ s.servers then s.act a else none

end Network

/-! The arrays behind the slices. A goroutine of `leaderSendHeartbeats` takes the slice
`cm.log[ni:]`, and `gob` reads the entries once the mutex is released, field by field. -/

/-- The arrays a module has had its log in; the log is the front of the `current` one. -/
structure Arrays (α : Type) where
  cells : Nat → List (LogEntry α) := fun _ => []
  current : Nat := 0
  capacity : Nat := 0

/-- `append(log[:k], entries...)`: in the same array where there is room, and otherwise in
a new one, whose capacity the runtime chooses. -/
def Arrays.append (m : Arrays α) (k : Nat) (entries : List (LogEntry α)) (capacity : Nat) :
    Arrays α :=
  let old := m.cells m.current
  if k + entries.length ≤ m.capacity then
    { m with
      cells := Function.update m.cells m.current
        (old.take k ++ (entries ++ old.drop (k + entries.length))) }
  else
    { cells := Function.update m.cells (m.current + 1) (old.take k ++ entries)
      current := m.current + 1
      capacity := max capacity (k + entries.length) }

/-- A request on its way through `gob`: the array its entries are in, and what has been read
of them. -/
structure Sending (α : Type) where
  array : Nat := 0
  commands : List α := []
  terms : List Int := []
  deriving DecidableEq

namespace Sending

def entries (g : Sending α) : List (LogEntry α) :=
  List.zipWith LogEntry.mk g.commands g.terms

/-- The next field of the entry that is read. -/
def read (g : Sending α) (e : LogEntry α) : Sending α :=
  if g.commands.length = g.terms.length then { g with commands := g.commands ++ [e.command] }
  else { g with terms := g.terms ++ [e.term] }

end Sending

/-- The modules, the arrays behind their logs, and the requests that are encoded, by the
goroutines that send them. -/
structure SharedNetwork (α : Type) where
  network : Network α
  arrays : Int → Arrays α := fun _ => {}
  sending : Int → Nat → Sending α := fun _ _ => {}

/-- A step of a goroutine that holds the mutex, `capacity` being that of the array it may
allocate, or the next read of a goroutine whose request is encoded. -/
inductive SharedAction (α : Type) where
  | step (a : Action α) (capacity : Nat)
  | encode (i : Int) (k : Nat)

/-- What `AppendEntries` appends, and where it cuts the log for that. -/
def ConsensusModule.inserted (cm : ConsensusModule α) (args : AppendEntriesArgs α) :
    Option (Nat × List (LogEntry α)) :=
  let logInsertIndex := (args.prevLogIndex + 1).toNat
  let newEntriesIndex := matching (cm.log.drop logInsertIndex) args.entries
  if cm.state ≠ .unknown ∧ cm.currentTerm ≤ args.term ∧ prevMatches cm.log args ∧
      newEntriesIndex < args.entries.length then
    some (logInsertIndex + newEntriesIndex, args.entries.drop newEntriesIndex)
  else none

/-- The call of `append` that module `j` makes in a step, in `Submit` or `AppendEntries`. -/
def Network.appended (s : Network α) (j : Int) : Action α → Option (Nat × List (LogEntry α))
  | .submit i command =>
      if i = j ∧ (s.node i).state = .leader then
        some ((s.node i).log.length, [{ command := command, term := (s.node i).currentTerm }])
      else none
  | .heartbeatServe i k _ =>
      match (s.node i).heartbeats[k]? with
      | some { peerId, args := some args, .. } =>
          if peerId = j then (s.node j).inserted args else none
      | _ => none
  | _ => none

namespace SharedNetwork

def startUp (α : Type) (n : Nat) : SharedNetwork α where
  network := .startUp α n

/-- The entry of the array that is read next. -/
def cell (s : SharedNetwork α) (i : Int) (k : Nat) (hb : Heartbeat α) : Option (LogEntry α) :=
  ((s.arrays i).cells (s.sending i k).array)[hb.ni.toNat + (s.sending i k).terms.length]?

def setSending (s : SharedNetwork α) (i : Int) (k : Nat) (g : Sending α) : SharedNetwork α :=
  { s with sending := Function.update s.sending i (Function.update (s.sending i) k g) }

def encode (s : SharedNetwork α) (i : Int) (k : Nat) : Option (SharedNetwork α) :=
  match (s.network.node i).heartbeats[k]? with
  | some hb =>
      match hb.args with
      | some args =>
          if (s.sending i k).terms.length < args.entries.length then
            (s.cell i k hb).map fun e => s.setSending i k ((s.sending i k).read e)
          else none
      | none => none
  | none => none

/-- The entries of a request that is served are those that have been encoded. -/
def transmitted (s : SharedNetwork α) : Action α → Option (Network α)
  | .heartbeatServe i k _ =>
      match (s.network.node i).heartbeats[k]? with
      | some hb =>
          match hb.args with
          | some args =>
              if (s.sending i k).terms.length = args.entries.length then
                some (s.network.set i ((s.network.node i).updateHeartbeat k fun hb =>
                  { hb with args := some { args with entries := (s.sending i k).entries } }))
              else none
          | none => none
      | none => none
  | _ => some s.network

/-- The slice of a request is one of the present array. -/
def sent (s : SharedNetwork α) : Action α → SharedNetwork α
  | .heartbeatSend i k => s.setSending i k { array := (s.arrays i).current }
  | _ => s

def step (s : SharedNetwork α) : SharedAction α → Option (SharedNetwork α)
  | .step a capacity =>
      (s.transmitted a).bind fun n => (n.step a).map fun n' =>
        { s.sent a with
          network := n'
          arrays := fun j => (n.appended j a).elim (s.arrays j) fun p =>
            (s.arrays j).append p.1 p.2 capacity }
  | .encode i k => s.encode i k

end SharedNetwork
end Prototype
end OhMyDb
