import OhMyDb.Lib.Serial
import OhMyDb.Raft.Alone
import OhMyDb.Membership.Peers

/-!
The handlers of one replica as they would be if none of them let go of `state_.Mut` on its
way, and what of the state they decide by.
-/

namespace OhMyDb

/-- The servers a map has entries for. -/
def IntMap.servers {V : Type} (m : IntMap V) : Finset Int := m.keys.toFinset

namespace IntMap
variable {V : Type} (m : IntMap V)

@[simp] theorem mem_servers {p : Int} : p ∈ m.servers ↔ p ∈ m :=
  List.mem_toFinset.trans AList.mem_keys.symm

theorem servers_insert (p : Int) (v : V) :
    IntMap.servers (m.insert p v) = insert p m.servers := by
  ext q
  rw [mem_servers, AList.mem_insert, Finset.mem_insert, mem_servers]

theorem servers_erase (p : Int) : IntMap.servers (m.erase p) = m.servers.erase p := by
  ext q
  rw [mem_servers, AList.mem_erase, Finset.mem_erase, mem_servers]

theorem card_servers : m.servers.card = m.size :=
  List.toFinset_card_of_nodup m.keys_nodup

theorem servers_subscript (p : Int) (v : V) :
    IntMap.servers (m.subscript p v).2 = insert p m.servers := by
  unfold subscript
  split
  · next found =>
    have mem : p ∈ m := AList.lookup_isSome.mp (by rw [found]; rfl)
    exact (Finset.insert_eq_of_mem (m.mem_servers.mpr mem)).symm
  · exact m.servers_insert p v

end IntMap

def PeerUpdate.apply (s : Finset Int) : PeerUpdate → Finset Int
  | .addPeer p => insert p s
  | .removePeer p => s.erase p

/-- What a command makes of the set of servers. -/
def Command.enroll (s : Finset Int) : Command → Finset Int
  | .addServer info => insert info.id s
  | .removeServer serverId => s.erase serverId
  | .get _ | .put _ _ => s

theorem servers_configure (command : Command) (config : IntMap ServerInfo) :
    IntMap.servers (command.configure config) = command.enroll config.servers := by
  cases command with
  | addServer info => exact config.servers_insert _ _
  | removeServer serverId => exact config.servers_erase _
  | get | put => rfl

/-- The servers after the entries. -/
def enrolled (s : Finset Int) (es : List LogEntry) : Finset Int :=
  es.foldl (fun s e => e.op.command.enroll s) s

/-- The calls replica `id` makes for the entries with the mutex released. -/
def peerUpdates (id : Int) (es : List LogEntry) : List PeerUpdate :=
  es.filterMap fun e => e.op.command.peerUpdate id

/-- What the handlers decide by. -/
structure Core where
  id : Int
  currentTerm : Int
  votedFor : Int
  logs : List LogEntry
  role : RaftRole
  electionResetEvent : Int
  votesReceived : Int
  lastKnownLeaderId : Int
  clusterConfig : Finset Int
  peers : Finset Int

namespace Core

def logVector (c : Core) : LogVector := { items := c.logs }

/-- Entries go to the end of the log, and the configuration follows them. -/
def push (c : Core) (es : List LogEntry) : Core :=
  { c with logs := c.logs ++ es, clusterConfig := enrolled c.clusterConfig es }

def connect (c : Core) (us : List PeerUpdate) : Core :=
  { c with peers := us.foldl PeerUpdate.apply c.peers }

/-- An append loop from its beginning to its end. -/
def append (c : Core) (es : List LogEntry) : Core :=
  (c.push es).connect (peerUpdates c.id es)

def becomeFollower (c : Core) (term now : Int) : Core :=
  { c with currentTerm := term, role := .follower, votedFor := -1, electionResetEvent := now }

def electionTick (c : Core) (now electionTimeoutMillis : Int) : Core :=
  if c.role = .follower ∧ now - c.electionResetEvent > electionTimeoutMillis then
    { c with
      currentTerm := c.currentTerm + 1
      role := .candidate
      electionResetEvent := now
      votedFor := c.id
      votesReceived := 1 }
  else c

/-- The candidate is granted a vote. -/
def Grants (c : Core) (args : RequestVoteParams) : Prop :=
  args.candidateId ∈ c.peers ∧ args.term ≥ c.currentTerm ∧
    (args.term = c.currentTerm → c.votedFor = -1 ∨ c.votedFor = args.candidateId) ∧
    Replica.upToDate args (c.logVector.size - 1) c.logVector.lastTerm

instance (c : Core) (args : RequestVoteParams) : Decidable (c.Grants args) :=
  inferInstanceAs (Decidable (_ ∧ _ ∧ (_ → _) ∧ _))

/-- The candidate's term is taken over. -/
def Follows (c : Core) (args : RequestVoteParams) : Prop :=
  args.candidateId ∈ c.peers ∧ args.term > c.currentTerm

instance (c : Core) (args : RequestVoteParams) : Decidable (c.Follows args) :=
  inferInstanceAs (Decidable (_ ∧ _))

def requestVote (c : Core) (args : RequestVoteParams) (now : Int) : Core :=
  let d := if c.Follows args then c.becomeFollower args.term now else c
  if c.Grants args then
    { d with votedFor := args.candidateId, electionResetEvent := now }
  else d

/-- One more vote is a majority. -/
def Majority (c : Core) : Prop := (c.clusterConfig.card : Int) < (c.votesReceived + 1) * 2

instance (c : Core) : Decidable c.Majority := inferInstanceAs (Decidable (_ < _))

def voteReply (c : Core) (savedCurrentTerm : Int) (reply : RequestVoteRet) (now : Int) : Core :=
  if c.role ≠ .candidate then c
  else if reply.term > savedCurrentTerm then c.becomeFollower reply.term now
  else if Replica.Wins savedCurrentTerm reply then
    if c.Majority then
      { c with
        votesReceived := c.votesReceived + 1
        role := .leader
        electionResetEvent := now
        votedFor := -1
        lastKnownLeaderId := c.id }
    else { c with votesReceived := c.votesReceived + 1 }
  else c

/-- `AppendEntries` changes the log. -/
def Merges (c : Core) (args : AppendEntriesParams) : Prop :=
  c.role ≠ .dead ∧ args.term ≥ c.currentTerm ∧ Replica.prevMatches c.logVector args ∧
    Replica.newEntriesIndex c.logVector args < args.entries.length

instance (c : Core) (args : AppendEntriesParams) : Decidable (c.Merges args) :=
  inferInstanceAs (Decidable (_ ∧ _ ∧ _ ∧ _))

/-- The part of `AppendEntries` before it looks at the log. -/
def meetLeader (c : Core) (args : AppendEntriesParams) (now : Int) : Core :=
  let d := { c with
    electionResetEvent := if args.term ≥ c.currentTerm then now else c.electionResetEvent }
  if c.role = .dead then d
  else if args.term > c.currentTerm ∨ (args.term = c.currentTerm ∧ c.role ≠ .follower) then
    { d.becomeFollower args.term now with lastKnownLeaderId := args.leaderId }
  else { d with lastKnownLeaderId := args.leaderId }

/-- The entries `AppendEntries` pushes. -/
def news (c : Core) (args : AppendEntriesParams) : List LogEntry :=
  (args.entries.drop (Replica.newEntriesIndex c.logVector args)).map AppendLogEntry.entry

def truncate (c : Core) (n : Nat) : Core := { c with logs := c.logs.take n }

def appendEntries (c : Core) (args : AppendEntriesParams) (now : Int) : Core :=
  if c.Merges args then
    ((c.meetLeader args now).truncate (Replica.logInsertIndex c.logVector args)).append
      (c.news args)
  else c.meetLeader args now

def leaderEntries (c : Core) (ops : List RaftOp) : List LogEntry :=
  ops.map fun op => { term := c.currentTerm, op := op }

/-- `getLastKnownLeaderRaftAddr` / `getLastKnownLeaderDBAddr`. -/
def leaderAddr (c : Core) : Core :=
  { c with clusterConfig := insert c.lastKnownLeaderId c.clusterConfig }

end Core

/-- What takes `state_.Mut` and may write what handlers decide by, with what it is called
with, or its thread has saved. The waiting loops of the calls are taken by what they
come to. -/
inductive Handler where
  | electionTick (now electionTimeoutMillis : Int)
  | requestVote (args : RequestVoteParams) (now : Int)
  | voteReply (savedCurrentTerm : Int) (reply : RequestVoteRet) (now : Int)
  | appendEntries (args : AppendEntriesParams) (now : Int)
  | runLeaderOneIter (ops : List RaftOp)
  | appendReply (id savedCurrentTerm nextIndex : Int) (numEntries : Nat)
      (reply : AppendEntriesRet) (now : Int)
  | addServer (args : AddServerParams)
  | removeServer (serverId : Int)
  | leaderAddr
  | stepDown (now : Int)

namespace Replica

/-- The append loop of `AppendEntries` and what follows it, in one go. -/
def appendHeld (args : AppendEntriesParams) : List AppendLogEntry → Replica → Replica
  | [], r => r.persistLogs.followCommit args.leaderCommit
  | e :: es, r =>
      match (r.pushLog { term := e.term, op := e.op }).applyConfig e.op.command with
      | (r, some update) => appendHeld args es ((r.updatePeers update).checkIndex e)
      | (r, none) => appendHeld args es (r.checkIndex e)

/-- The locked section of `runLeaderOneIter`, in one go. -/
def leaderHeld : List RaftOp → Replica → Replica
  | [], r => r.persistLogs
  | op :: ops, r =>
      match (r.pushLog { term := r.state.currentTerm, op := op }).applyConfig op.command with
      | (r, some update) => leaderHeld ops (r.updatePeers update)
      | (r, none) => leaderHeld ops r

/-- `AppendEntries`, in one go. -/
def appendEntriesHeld (r : Replica) (args : AppendEntriesParams) (now : Int) : Replica :=
  match r.appendEntries args now with
  | (r, .replied _) => r
  | (r, .suspended update e rest) => appendHeld args rest ((r.updatePeers update).checkIndex e)

/-- A handler that keeps the mutex. -/
def run (r : Replica) : Handler → Replica
  | .electionTick now timeout => r.electionTick now timeout
  | .requestVote args now => (r.requestVote args now).1
  | .voteReply saved reply now => r.voteReply saved reply now
  | .appendEntries args now => r.appendEntriesHeld args now
  | .runLeaderOneIter ops => leaderHeld ops r
  | .appendReply id saved nextIndex n reply now => r.appendReply id saved nextIndex n reply now
  | .addServer args => r.addServer args
  | .removeServer serverId => r.removeServer serverId
  | .leaderAddr => r.raftAddr.2
  | .stepDown now => { r with state := r.state.becomeFollower (-1) now }

def core (r : Replica) : Core where
  id := r.id
  currentTerm := r.state.currentTerm
  votedFor := r.state.votedFor
  logs := r.state.logs.items
  role := r.state.role
  electionResetEvent := r.state.electionResetEvent
  votesReceived := r.state.votesReceived
  lastKnownLeaderId := r.state.lastKnownLeaderId
  clusterConfig := r.state.clusterConfig.servers
  peers := r.peers.servers

end Replica

namespace Core

/-- What a handler does to what handlers decide by. -/
def run (c : Core) : Handler → Core
  | .electionTick now timeout => c.electionTick now timeout
  | .requestVote args now => c.requestVote args now
  | .voteReply saved reply now => c.voteReply saved reply now
  | .appendEntries args now => c.appendEntries args now
  | .runLeaderOneIter ops => c.append (c.leaderEntries ops)
  | .appendReply _ saved _ _ reply now =>
      if reply.term > saved then c.becomeFollower reply.term now else c
  | .addServer args =>
      if c.role ≠ .leader ∨ args.serverId ∈ c.clusterConfig then c.leaderAddr else c
  | .removeServer serverId =>
      if c.role ≠ .leader ∨ serverId ∉ c.clusterConfig then c.leaderAddr else c
  | .leaderAddr => c.leaderAddr
  | .stepDown now => c.becomeFollower (-1) now

theorem push_append (c : Core) (es fs : List LogEntry) :
    c.push (es ++ fs) = (c.push es).push fs := by
  simp only [push, enrolled, List.foldl_append, List.append_assoc]

theorem connect_append (c : Core) (us vs : List PeerUpdate) :
    c.connect (us ++ vs) = (c.connect us).connect vs := by
  simp only [connect, List.foldl_append]

theorem append_append (c : Core) (es fs : List LogEntry) :
    c.append (es ++ fs) = (c.append es).append fs := by
  rw [append, push_append, peerUpdates, List.filterMap_append, connect_append]
  rfl

theorem append_cons (c : Core) (e : LogEntry) (es : List LogEntry) :
    c.append (e :: es) =
      ((c.push [e]).connect (e.op.command.peerUpdate c.id).toList).append es := by
  have first : peerUpdates c.id [e] = (e.op.command.peerUpdate c.id).toList := by
    cases h : e.op.command.peerUpdate c.id <;> simp [peerUpdates, h]
  rw [← first]
  exact c.append_append [e] es

@[simp] theorem push_nil (c : Core) : c.push [] = c := by
  simp only [push, enrolled, List.foldl_nil, List.append_nil]

@[simp] theorem append_nil (c : Core) : c.append [] = c := by
  rw [append, push_nil]
  rfl

/-- How far an append loop has come: to its end, or to an entry whose change is due at the
peers. -/
def Stops (c : Core) (es : List LogEntry) (d : Core) : Option (PeerUpdate × List LogEntry) → Prop
  | none => peerUpdates c.id es = [] ∧ d = c.push es
  | some (update, rest) => ∃ pushed, es = pushed ++ rest ∧
      peerUpdates c.id pushed = [update] ∧ d = c.push pushed

/-- The rest of an append loop. -/
def goOn (c : Core) : Option (PeerUpdate × List LogEntry) → Core
  | none => c
  | some (update, rest) => (c.connect [update]).append rest

variable {c d : Core} {e : LogEntry} {es : List LogEntry}
  {stop : Option (PeerUpdate × List LogEntry)}

theorem Stops.goOn (h : c.Stops es d stop) : d.goOn stop = c.append es := by
  cases stop with
  | none =>
      obtain ⟨still, rfl⟩ := h
      rw [append, still]
      rfl
  | some s =>
      obtain ⟨pushed, rfl, due, rfl⟩ := h
      have here : c.append pushed = (c.push pushed).connect [s.1] := by rw [append, due]
      rw [append_append, here]
      rfl

/-- The loop goes on after an entry that has nothing to do with the peers. -/
theorem Stops.cons (still : e.op.command.peerUpdate c.id = none)
    (h : (c.push [e]).Stops es d stop) : c.Stops (e :: es) d stop := by
  have more (fs : List LogEntry) : peerUpdates c.id (e :: fs) = peerUpdates c.id fs :=
    List.filterMap_cons_none still
  cases stop with
  | none =>
      obtain ⟨still, rfl⟩ := h
      exact ⟨(more es).trans still, (c.push_append [e] es).symm⟩
  | some s =>
      obtain ⟨pushed, rfl, due, rfl⟩ := h
      exact ⟨e :: pushed, rfl, (more pushed).trans due, (c.push_append [e] pushed).symm⟩

/-- The loop stops at its first entry. -/
theorem Stops.here {u : PeerUpdate} (due : e.op.command.peerUpdate c.id = some u) :
    c.Stops (e :: es) (c.push [e]) (some (u, es)) :=
  ⟨[e], rfl, List.filterMap_cons_some due, rfl⟩

end Core

/-- Where a call of `AppendEntries` stands. -/
def Replica.AppendOutcome.stop : Replica.AppendOutcome → Option (PeerUpdate × List LogEntry)
  | .replied _ => none
  | .suspended update _ rest => some (update, rest.map AppendLogEntry.entry)

namespace Replica
variable (r : Replica)

@[simp] theorem core_persistLogs : r.persistLogs.core = r.core := by
  simp only [core, persistLogs, LogVector.persist_items]

@[simp] theorem core_followCommit (leaderCommit : Int) :
    (r.followCommit leaderCommit).core = r.core := by
  unfold followCommit
  split <;> rfl

@[simp] theorem core_checkIndex (e : AppendLogEntry) : (r.checkIndex e).core = r.core := by
  unfold checkIndex
  split <;> rfl

@[simp] theorem core_truncate (n : Nat) : (r.truncate n).core = r.core.truncate n := by
  simp only [core, truncate, Core.truncate, LogVector.resize_items]

@[simp] theorem core_updatePeers (u : PeerUpdate) :
    (r.updatePeers u).core = r.core.connect [u] := by
  cases u with
  | addPeer p =>
      simp only [updatePeers, core, addPeer, Core.connect, List.foldl, PeerUpdate.apply,
        IntMap.servers_insert]
      rfl
  | removePeer p =>
      simp only [updatePeers, core, removePeer, Core.connect, List.foldl, PeerUpdate.apply,
        IntMap.servers_erase]

@[simp] theorem core_append (e : LogEntry) : (r.append e).core = r.core.push [e] := by
  simp only [core, append, Core.push, enrolled, List.foldl, servers_configure,
    LogVector.pushBack_items]

/-- The append loop of `AppendEntries`, up to its end or to where it lets go of the mutex. -/
theorem appendRest_stops (args : AppendEntriesParams) (es : List AppendLogEntry) :
    r.core.Stops (es.map AppendLogEntry.entry) (r.appendRest args es).1.core
      (r.appendRest args es).2.stop := by
  induction es generalizing r with
  | nil =>
      rw [appendRest_nil, core_followCommit, core_persistLogs]
      exact ⟨rfl, r.core.push_nil.symm⟩
  | cons e es ih =>
      rw [appendRest_cons]
      cases h : e.op.command.peerUpdate r.id with
      | some u =>
          have stops : r.core.Stops (e.entry :: es.map AppendLogEntry.entry) _ _ :=
            Core.Stops.here (show e.entry.op.command.peerUpdate r.core.id = some u from h)
          rw [← core_append] at stops
          exact stops
      | none =>
          have rest := ih ((r.append e.entry).checkIndex e)
          rw [core_checkIndex, core_append] at rest
          exact .cons h rest

theorem core_appendHeld (args : AppendEntriesParams) (es : List AppendLogEntry) :
    (appendHeld args es r).core = r.core.append (es.map AppendLogEntry.entry) := by
  induction es generalizing r with
  | nil =>
      rw [appendHeld, core_followCommit, core_persistLogs]
      exact r.core.append_nil.symm
  | cons e es ih =>
      rw [appendHeld, applyConfig_pushLog r ⟨e.term, e.op⟩, List.map_cons, Core.append_cons]
      cases h : e.op.command.peerUpdate r.id with
      | some u =>
          have due : e.entry.op.command.peerUpdate r.core.id = some u := h
          rw [due]
          simp only [ih, core_checkIndex, core_updatePeers, core_append]
          rfl
      | none =>
          have still : e.entry.op.command.peerUpdate r.core.id = none := h
          rw [still]
          simp only [ih, core_checkIndex, core_append]
          rfl

theorem core_leaderHeld (ops : List RaftOp) :
    (leaderHeld ops r).core = r.core.append (r.core.leaderEntries ops) := by
  induction ops generalizing r with
  | nil =>
      rw [leaderHeld, core_persistLogs]
      exact r.core.append_nil.symm
  | cons op ops ih =>
      have first : r.core.leaderEntries (op :: ops) =
          ⟨r.state.currentTerm, op⟩ :: r.core.leaderEntries ops := rfl
      rw [leaderHeld, applyConfig_pushLog r ⟨r.state.currentTerm, op⟩, first, Core.append_cons]
      cases h : op.command.peerUpdate r.id with
      | some u =>
          have due : op.command.peerUpdate r.core.id = some u := h
          simp only [due, ih, core_updatePeers, core_append]
          rfl
      | none =>
          have still : op.command.peerUpdate r.core.id = none := h
          simp only [still, ih, core_append]
          rfl

theorem core_observeLeader (alive : r.state.role ≠ .dead) (args : AppendEntriesParams)
    (now : Int) :
    ({ r with state := r.observeLeader args now } : Replica).core = r.core.meetLeader args now := by
  have living : r.core.role ≠ .dead := alive
  rw [Core.meetLeader, if_neg living]
  by_cases later : args.term > r.state.currentTerm
  · have follows : args.term > r.core.currentTerm ∨
        (args.term = r.core.currentTerm ∧ r.core.role ≠ .follower) := Or.inl later
    simp only [observeLeader, if_pos later]
    rw [if_pos follows, if_neg fun again => again.2 rfl]
    rfl
  · simp only [observeLeader, if_neg later]
    by_cases again : args.term = r.state.currentTerm ∧ r.state.role ≠ .follower
    · have follows : args.term > r.core.currentTerm ∨
          (args.term = r.core.currentTerm ∧ r.core.role ≠ .follower) := Or.inr again
      rw [if_pos follows, if_pos again]
      rfl
    · have stays : ¬ (args.term > r.core.currentTerm ∨
          (args.term = r.core.currentTerm ∧ r.core.role ≠ .follower)) :=
        not_or.mpr ⟨later, again⟩
      rw [if_neg stays, if_neg again]
      rfl

/-- `AppendEntries` gets to its append loop. -/
theorem appendEntries_pushes {args : AppendEntriesParams} (merges : r.core.Merges args)
    (now : Int) : r.appendEntries args now =
      ({ r with state := r.observeLeader args now }.truncate
        (logInsertIndex r.state.logs args)).appendRest args
        (args.entries.drop (newEntriesIndex r.state.logs args)) := by
  obtain ⟨alive, le, prev, new⟩ := merges
  have term : args.term = (r.observeLeader args now).currentTerm := by
    rw [observeLeader_term]
    exact (max_eq_right le).symm
  have living : ¬ r.state.role = .dead := alive
  have ok : args.term = (r.observeLeader args now).currentTerm ∧
      prevMatches r.state.logs args := ⟨term, prev⟩
  simp only [appendEntries, if_neg living, mergeEntries, observeLeader_logs]
  rw [if_pos ok]
  exact if_pos new

/-- `AppendEntries` leaves the log as it is. -/
theorem appendEntries_still {args : AppendEntriesParams} (still : ¬ r.core.Merges args)
    (now : Int) : ∃ s c ret, r.appendEntries args now = (followCommit { r with state := s } c,
      .replied ret) ∧ ({ r with state := s } : Replica).core = r.core.meetLeader args now := by
  have stay (s : RaftState) : ({ r with state := s } : Replica).followCommit s.commitIndex =
      { r with state := s } := if_neg (lt_irrefl _)
  by_cases dead : r.state.role = .dead
  · have ended : r.core.role = .dead := dead
    refine ⟨_, r.state.commitIndex, _, (if_pos dead).trans (congrArg (·, _) (stay _).symm), ?_⟩
    rw [Core.meetLeader, if_pos ended]
    rfl
  have met := r.core_observeLeader dead args now
  have term := r.observeLeader_term args now
  simp only [appendEntries, if_neg dead, observeLeader_logs]
  by_cases ok : args.term = (r.observeLeader args now).currentTerm ∧ prevMatches r.state.logs args
  · have le : args.term ≥ r.core.currentTerm :=
      ok.1.trans term ▸ le_max_left r.state.currentTerm args.term
    have old : ¬ newEntriesIndex r.state.logs args < args.entries.length :=
      fun new => still ⟨dead, le, ok.2, new⟩
    rw [if_pos ok, mergeEntries]
    simp only [observeLeader_logs]
    rw [if_neg old]
    exact ⟨_, _, _, rfl, met⟩
  · rw [if_neg ok]
    exact ⟨_, _, _, congrArg (·, _) (stay _).symm, met⟩

/-- `AppendEntries` up to its end, or to where it lets go of the mutex. -/
theorem appendEntries_stops (args : AppendEntriesParams) (now : Int) :
    (r.core.Merges args ∧ ((r.core.meetLeader args now).truncate
        (logInsertIndex r.core.logVector args)).Stops (r.core.news args)
        (r.appendEntries args now).1.core (r.appendEntries args now).2.stop) ∨
    (¬ r.core.Merges args ∧ (r.appendEntries args now).1.core = r.core.meetLeader args now ∧
      (r.appendEntries args now).2.stop = none) := by
  by_cases merges : r.core.Merges args
  · have stops := appendRest_stops ({ r with state := r.observeLeader args now }.truncate
      (logInsertIndex r.state.logs args)) args
      (args.entries.drop (newEntriesIndex r.state.logs args))
    rw [core_truncate, r.core_observeLeader merges.1] at stops
    rw [r.appendEntries_pushes merges]
    exact Or.inl ⟨merges, stops⟩
  · obtain ⟨s, c, ret, eq, met⟩ := r.appendEntries_still merges now
    rw [eq]
    exact Or.inr ⟨merges, (core_followCommit _ _).trans met, rfl⟩

theorem core_appendEntriesHeld (args : AppendEntriesParams) (now : Int) :
    (r.appendEntriesHeld args now).core = r.core.appendEntries args now := by
  have held : (r.appendEntriesHeld args now).core =
      (r.appendEntries args now).1.core.goOn (r.appendEntries args now).2.stop := by
    unfold appendEntriesHeld
    split
    · next x ret he =>
      rw [he]
      rfl
    · next x u e rest he =>
      rw [he, core_appendHeld, core_checkIndex, core_updatePeers]
      rfl
  rw [held, Core.appendEntries]
  rcases r.appendEntries_stops args now with ⟨merges, stops⟩ | ⟨still, same, none⟩
  · rw [if_pos merges]
    exact stops.goOn
  · rw [if_neg still, same, none]
    rfl

theorem grants_iff (args : RequestVoteParams) (now : Int) :
    r.core.Grants args ↔ args.candidateId ∈ r.peers ∧ r.grantsVote args now := by
  refine and_congr (IntMap.mem_servers _) ?_
  simp only [grantsVote, observeTerm]
  by_cases later : args.term > r.state.currentTerm
  · rw [if_pos later]
    exact ⟨fun h => ⟨rfl, Or.inl rfl, h.2.2⟩,
      fun h => ⟨later.le, fun same => absurd same later.ne', h.2.2⟩⟩
  · rw [if_neg later]
    refine ⟨fun h => ?_, fun h => ⟨h.1.ge, fun _ => h.2.1, h.2.2⟩⟩
    have same : args.term = r.state.currentTerm := le_antisymm (not_lt.mp later) h.1
    exact ⟨same, h.2.1 same, h.2.2⟩

theorem core_requestVote (args : RequestVoteParams) (now : Int) :
    (r.requestVote args now).1.core = r.core.requestVote args now := by
  simp only [requestVote, Core.requestVote]
  by_cases member : args.candidateId ∈ r.peers
  · rw [if_neg (not_not_intro member)]
    have follows : r.core.Follows args ↔ args.term > r.state.currentTerm :=
      and_iff_right ((IntMap.mem_servers _).mpr member)
    have grants : r.core.Grants args ↔ r.grantsVote args now :=
      (r.grants_iff args now).trans (and_iff_right member)
    simp only [follows, grants, observeTerm]
    split_ifs <;> rfl
  · have outside : args.candidateId ∉ r.core.peers := fun h => member ((IntMap.mem_servers _).mp h)
    rw [if_pos member, if_neg fun grants => outside grants.1,
      if_neg fun follows => outside follows.1]

theorem core_voteReply (saved : Int) (reply : RequestVoteRet) (now : Int) :
    (r.voteReply saved reply now).core = r.core.voteReply saved reply now := by
  have majority : r.core.Majority ↔
      (r.state.clusterConfig.size : Int) < (r.state.votesReceived + 1) * 2 := by
    rw [← IntMap.card_servers]
    exact Iff.rfl
  by_cases role : r.state.role = .candidate
  · have candidate : ¬ r.core.role ≠ .candidate := not_not_intro role
    by_cases later : reply.term > saved
    · rw [voteReply, Core.voteReply, if_neg (not_not_intro role), if_neg candidate, if_pos later,
        if_pos later]
      rfl
    · rcases r.voteReply_cases saved reply now with
        ⟨e, lost⟩ | ⟨_, later', _⟩ | ⟨_, wins, ⟨few, e⟩ | ⟨enough, s, rfl, e⟩⟩
      · rw [e, Core.voteReply, if_neg candidate, if_neg later, if_neg (lost role)]
      · exact absurd later' later
      · rw [e, Core.voteReply, if_neg candidate, if_neg later, if_pos wins,
          if_neg fun h => few.not_gt (majority.mp h)]
        rfl
      · rw [e, Core.voteReply, if_neg candidate, if_neg later, if_pos wins,
          if_pos (majority.mpr enough)]
        rfl
  · have other : r.core.role ≠ .candidate := role
    rw [voteReply, Core.voteReply, if_pos role, if_pos other]

theorem core_appendReply (id saved nextIndex : Int) (n : Nat) (reply : AppendEntriesRet)
    (now : Int) : (r.appendReply id saved nextIndex n reply now).core =
      if reply.term > saved then r.core.becomeFollower reply.term now else r.core := by
  refine appendReply_elim r id saved nextIndex n reply now ?down ?idle ?refused ?matched ?committed
  case down => exact fun later => (if_pos later).symm
  case idle => exact fun earlier _ => (if_neg (Int.not_lt.mpr earlier)).symm
  case refused => exact fun _ term _ => (if_neg (Int.not_lt.mpr (Int.le_of_eq term.symm))).symm
  case matched => exact fun _ term _ _ _ => (if_neg (Int.not_lt.mpr (Int.le_of_eq term.symm))).symm
  case committed =>
    rintro _ term _ m i _ _ _ _ rfl
    exact (if_neg (Int.not_lt.mpr (Int.le_of_eq term.symm))).symm

theorem core_raftAddr : r.raftAddr.2.core = r.core.leaderAddr := by
  simp only [core, raftAddr, RaftState.getLastKnownLeaderRaftAddr, Core.leaderAddr,
    IntMap.servers_subscript]

/-- What handlers decide by says what becomes of it. -/
theorem core_run (x : Handler) : r.core.run x = (r.run x).core := by
  cases x with
  | electionTick now timeout =>
      by_cases due : r.state.role = .follower ∧ now - r.state.electionResetEvent > timeout
      · have timedOut : r.core.role = .follower ∧ now - r.core.electionResetEvent > timeout := due
        rw [Core.run, run, Core.electionTick, electionTick, if_pos due, if_pos timedOut]
        rfl
      · have waits : ¬ (r.core.role = .follower ∧ now - r.core.electionResetEvent > timeout) := due
        rw [Core.run, run, Core.electionTick, electionTick, if_neg due, if_neg waits]
  | requestVote args now => exact (r.core_requestVote args now).symm
  | voteReply saved reply now => exact (r.core_voteReply saved reply now).symm
  | appendEntries args now => exact (r.core_appendEntriesHeld args now).symm
  | runLeaderOneIter ops => exact (r.core_leaderHeld ops).symm
  | appendReply id saved nextIndex n reply now =>
      exact (r.core_appendReply id saved nextIndex n reply now).symm
  | addServer args =>
      by_cases other : r.state.role ≠ .leader
      · have asks : r.core.role ≠ .leader ∨ args.serverId ∈ r.core.clusterConfig := Or.inl other
        rw [Core.run, run, addServer, if_pos asks, if_pos other, ← core_raftAddr]
        rfl
      · by_cases member : args.serverId ∈ r.state.clusterConfig
        · have asks : r.core.role ≠ .leader ∨ args.serverId ∈ r.core.clusterConfig :=
            Or.inr ((IntMap.mem_servers _).mpr member)
          rw [Core.run, run, addServer, if_pos asks, if_neg other, if_pos member, ← core_raftAddr]
          rfl
        · have goes : ¬ (r.core.role ≠ .leader ∨ args.serverId ∈ r.core.clusterConfig) :=
            not_or.mpr ⟨other, fun h => member ((IntMap.mem_servers _).mp h)⟩
          rw [Core.run, run, addServer, if_neg goes, if_neg other, if_neg member]
          rfl
  | removeServer serverId =>
      by_cases other : r.state.role ≠ .leader
      · have asks : r.core.role ≠ .leader ∨ serverId ∉ r.core.clusterConfig := Or.inl other
        rw [Core.run, run, removeServer, if_pos asks, if_pos other, ← core_raftAddr]
        rfl
      · by_cases absent : serverId ∉ r.state.clusterConfig
        · have asks : r.core.role ≠ .leader ∨ serverId ∉ r.core.clusterConfig :=
            Or.inr fun h => absent ((IntMap.mem_servers _).mp h)
          rw [Core.run, run, removeServer, if_pos asks, if_neg other, if_pos absent,
            ← core_raftAddr]
          rfl
        · have goes : ¬ (r.core.role ≠ .leader ∨ serverId ∉ r.core.clusterConfig) :=
            not_or.mpr ⟨other, not_not_intro ((IntMap.mem_servers _).mpr (not_not.mp absent))⟩
          rw [Core.run, run, removeServer, if_neg goes, if_neg other, if_neg absent]
          rfl
  | leaderAddr => exact r.core_raftAddr.symm
  | stepDown now => rfl

end Replica
end OhMyDb
