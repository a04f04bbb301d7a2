import OhMyDb.Prototype.Safety

/-!
What a goroutine of `leaderSendHeartbeats` finds in `nextIndex`. The map is never reset: an
index learnt against a longer log survives until the module is leader again, and until a
goroutine of an earlier leadership reads it.
-/

namespace OhMyDb
namespace Prototype
open Execution
variable {α : Type}

theorem get_insert_bounds {m : IntMap Int} {P : Int → Prop} {p w : Int} (new : P w) {q : Int}
    (old : q ≠ p → P (get m q)) : P (get (m.insert p w) q) := by
  unfold get at old ⊢
  by_cases e : q = p
  · subst e
    rwa [AList.lookup_insert]
  · rw [AList.lookup_insert_ne e]
    exact old e

/-- What a leader writes to `nextIndex` for the peer. -/
def Heartbeat.next (hb : Heartbeat α) (numEntries : Nat) (success : Bool) : Int :=
  if success = true then hb.ni + numEntries else hb.ni - 1

/-- A goroutine asks a peer for the entries from `ni` on, and has been refused for an entry
before these only. -/
structure Heartbeat.Asks (peerIds : List Int) (hb : Heartbeat α) : Prop where
  saved : 0 < hb.savedCurrentTerm
  peer : hb.peerId ∈ peerIds
  args : ∀ args ∈ hb.args, 0 ≤ hb.ni ∧ args.term = hb.savedCurrentTerm ∧
    args.prevLogIndex = hb.ni - 1
  refused : ∀ reply ∈ hb.reply, reply = ⟨hb.savedCurrentTerm, false⟩ → hb.args ≠ none ∧ hb.ni ≠ 0

theorem Heartbeat.Asks.next_nonneg {peerIds : List Int} {hb : Heartbeat α}
    (asks : hb.Asks peerIds) {args : AppendEntriesArgs α} {reply : AppendEntriesReply}
    (sent : hb.args = some args) (answered : hb.reply = some reply)
    (term : reply.term = hb.savedCurrentTerm) (n : Nat) : 0 ≤ hb.next n reply.success := by
  have low := (asks.args args sent).1
  unfold Heartbeat.next
  split
  · omega
  · next failed =>
    have later := (asks.refused reply answered (by
      cases reply
      exact congr (congrArg _ term) (Bool.eq_false_iff.mpr failed))).2
    omega

namespace ConsensusModule
variable {cm cm' : ConsensusModule α} {hb : Heartbeat α} {k : Nat}

/-- Only a follower can be in term 0. -/
structure Termed (cm : ConsensusModule α) : Prop where
  term : 0 ≤ cm.currentTerm
  running : cm.state = .candidate ∨ cm.state = .leader → 0 < cm.currentTerm
  elections : ∀ el ∈ cm.elections, 0 < el.savedCurrentTerm

/-- No index is negative, whatever the module has been told. -/
structure Indexed (cm : ConsensusModule α) : Prop where
  termed : cm.Termed
  low : ∀ p, 0 ≤ get cm.nextIndex p
  asks : ∀ hb ∈ cm.heartbeats, hb.Asks cm.peerIds

/-- The goroutines that have still to read `nextIndex` will find an index of the log, or the
one after it. -/
def ReadsInRange (cm : ConsensusModule α) : Prop :=
  ∀ hb ∈ cm.heartbeats, hb.args = none →
    0 ≤ get cm.nextIndex hb.peerId ∧ get cm.nextIndex hb.peerId ≤ cm.log.length

/-- So will those that a leader starts next. -/
structure Roomy (cm : ConsensusModule α) : Prop where
  leader : cm.state = .leader → ∀ p ∈ cm.peerIds, get cm.nextIndex p ≤ cm.log.length
  waiting : ∀ hb ∈ cm.heartbeats, hb.args = none → get cm.nextIndex hb.peerId ≤ cm.log.length

/-- A step that the goroutines of `leaderSendHeartbeats` take no part in. -/
structure Calm (cm cm' : ConsensusModule α) : Prop where
  peerIds : cm'.peerIds = cm.peerIds
  heartbeats : cm'.heartbeats = cm.heartbeats
  nextIndex : cm'.nextIndex = cm.nextIndex
  termed : cm.Termed → cm'.Termed

theorem Calm.trans {cm'' : ConsensusModule α} (h : Calm cm cm') (h' : Calm cm' cm'') :
    Calm cm cm'' :=
  ⟨h'.peerIds.trans h.peerIds, h'.heartbeats.trans h.heartbeats, h'.nextIndex.trans h.nextIndex,
    fun t => h'.termed (h.termed t)⟩

/-! What the handlers do. -/

theorem Termed.becomeFollower (t : cm.Termed) {term : Int} (pos : 0 ≤ term) (now : Int) :
    (cm.becomeFollower term now).Termed where
  term := pos
  running := nofun
  elections := t.elections

theorem Termed.observeTerm (t : cm.Termed) (term now : Int) : (cm.observeTerm term now).Termed := by
  unfold ConsensusModule.observeTerm
  split
  · next later => exact t.becomeFollower (Int.le_trans t.term (Int.le_of_lt later)) now
  · exact t

theorem Termed.startElection (t : cm.Termed) (now : Int) : (cm.startElection now).Termed where
  term := Int.le_trans t.term (Int.le_add_one (Int.le_refl _))
  running _ := Int.lt_add_one_of_le t.term
  elections el mem := by
    rcases List.mem_append.mp mem with old | new
    · exact t.elections el old
    · rw [List.mem_singleton.mp new]
      exact Int.lt_add_one_of_le t.term

theorem Termed.updateElection (t : cm.Termed) (e : Nat) {f : Election → Election}
    (saved : ∀ el, (f el).savedCurrentTerm = el.savedCurrentTerm) :
    (cm.updateElection e f).Termed where
  term := t.term
  running := t.running
  elections el mem := by
    rcases List.mem_or_eq_of_mem_modify mem with old | ⟨x, found, rfl⟩
    · exact t.elections el old
    · rw [saved]
      exact t.elections x (List.mem_of_getElem? found)

theorem calm_observeTerm (cm : ConsensusModule α) (term now : Int) :
    Calm cm (cm.observeTerm term now) := by
  refine ⟨?_, ?_, ?_, fun t => t.observeTerm term now⟩ <;>
    · unfold ConsensusModule.observeTerm
      split <;> rfl

theorem calm_requestVote (cm : ConsensusModule α) (args : RequestVoteArgs) (now : Int) :
    Calm cm (cm.requestVote args now).1 ∧ (cm.requestVote args now).1.log = cm.log ∧
      ((cm.requestVote args now).1.state = .leader → cm.state = .leader) := by
  have calm := cm.calm_observeTerm args.term now
  have log : (cm.observeTerm args.term now).log = cm.log := by
    unfold ConsensusModule.observeTerm
    split <;> rfl
  have leads : (cm.observeTerm args.term now).state = .leader → cm.state = .leader := by
    unfold ConsensusModule.observeTerm
    split
    · exact nofun
    · exact fun lead => lead
  unfold ConsensusModule.requestVote
  split
  · exact ⟨⟨rfl, rfl, rfl, fun t => t⟩, rfl, fun lead => lead⟩
  · dsimp only
    split
    · exact ⟨⟨calm.peerIds, calm.heartbeats, calm.nextIndex, fun t =>
        ⟨(calm.termed t).term, (calm.termed t).running, (calm.termed t).elections⟩⟩, log, leads⟩
    · exact ⟨calm, log, leads⟩

theorem calm_observeLeader (cm : ConsensusModule α) {term : Int} (now : Int)
    (current : term = cm.currentTerm) : Calm cm (cm.observeLeader term now) := by
  unfold observeLeader
  split
  · refine ⟨rfl, rfl, rfl, fun t => ?_⟩
    have withdrawn := t.becomeFollower (current.symm ▸ t.term) now
    exact ⟨withdrawn.term, withdrawn.running, withdrawn.elections⟩
  · exact ⟨rfl, rfl, rfl, fun t => ⟨t.term, t.running, t.elections⟩⟩

theorem observeLeader_state (cm : ConsensusModule α) (term now : Int) :
    (cm.observeLeader term now).state = .follower := by
  unfold observeLeader
  split
  · rfl
  · next follows => exact not_not.mp follows

theorem calm_appendEntries (cm : ConsensusModule α) (args : AppendEntriesArgs α) (now : Int) :
    Calm cm (cm.appendEntries args now).1 ∧
      ((cm.appendEntries args now).1.state = .leader →
        cm.state = .leader ∧ (cm.appendEntries args now).1.log = cm.log) := by
  have observed := cm.calm_observeTerm args.term now
  unfold appendEntries
  split
  · exact ⟨⟨rfl, rfl, rfl, fun t => t⟩, fun lead => ⟨lead, rfl⟩⟩
  · dsimp only
    split
    · next current =>
      have met := observed.trans ((cm.observeTerm args.term now).calm_observeLeader now current)
      have follows := (cm.observeTerm args.term now).observeLeader_state args.term now
      split
      · exact ⟨⟨met.peerIds, met.heartbeats, met.nextIndex, fun t =>
          ⟨(met.termed t).term, (met.termed t).running, (met.termed t).elections⟩⟩,
          fun lead => absurd (follows.symm.trans lead) nofun⟩
      · exact ⟨met, fun lead => absurd (follows.symm.trans lead) nofun⟩
    · refine ⟨observed, ?_⟩
      unfold ConsensusModule.observeTerm
      split
      · exact nofun
      · exact fun lead => ⟨lead, rfl⟩

/-- A module that is stopped replies with term 0, and nobody else refuses a request of its term
that has no previous entry. -/
theorem appendEntries_refusal {args : AppendEntriesArgs α} {now : Int} (pos : 0 < args.term)
    (refused : (cm.appendEntries args now).2 = ⟨args.term, false⟩) : args.prevLogIndex ≠ -1 := by
  unfold appendEntries at refused
  split at refused
  · have term : 0 = args.term := congrArg AppendEntriesReply.term refused
    exact absurd (term ▸ pos) (Int.lt_irrefl _)
  · dsimp only at refused
    split at refused
    · split at refused
      · have success : true = false := congrArg AppendEntriesReply.success refused
        cases success
      · next differs => exact fun start => differs (Or.inl start)
    · next other => exact absurd (congrArg AppendEntriesReply.term refused).symm other

/-- A leader writes one index, and does not change its log. -/
theorem heartbeatReply_writes (cm : ConsensusModule α) (hb : Heartbeat α) (n : Nat)
    (reply : AppendEntriesReply) (now : Int) :
    (hb.savedCurrentTerm < reply.term ∧
      cm.heartbeatReply hb n reply now = cm.becomeFollower reply.term now) ∨
    (cm.state = .leader ∧ reply.term = hb.savedCurrentTerm ∧ ∃ matchIndex commitIndex hist,
      cm.heartbeatReply hb n reply now = { cm with
        nextIndex := cm.nextIndex.insert hb.peerId (hb.next n reply.success)
        matchIndex := matchIndex, commitIndex := commitIndex, hist := hist }) ∨
    ((cm.state = .leader → reply.term ≠ hb.savedCurrentTerm) ∧
      cm.heartbeatReply hb n reply now = cm) := by
  unfold heartbeatReply Heartbeat.next
  split
  · next later => exact Or.inl ⟨later, rfl⟩
  · split
    · next lead =>
      refine Or.inr (Or.inl ⟨lead.1, lead.2.symm, ?_⟩)
      split
      · obtain ⟨commitIndex, commits, eq, _⟩ := (cm.advance hb n).commitLoop_eq
        exact ⟨_, commitIndex, _, eq⟩
      · exact ⟨_, _, _, rfl⟩
    · next other =>
      exact Or.inr (Or.inr ⟨fun lead term => other ⟨lead, term.symm⟩, rfl⟩)

theorem Termed.voteReply_calm (t : cm.Termed) {e : Nat} {el : Election} {call : VoteCall}
    (found : cm.voteCall? e k = some (el, call)) (reply : RequestVoteReply) (now : Int) :
    Calm cm (cm.voteReply e el reply now) ∧ (cm.voteReply e el reply now).log = cm.log := by
  have saved := t.elections el (List.mem_of_getElem? (voteCall?_eq_some.mp found).1)
  rcases cm.voteReply_cases e el reply now with eq | ⟨_, later, eq⟩ | ⟨candidate, _, eq⟩
  · rw [eq]
    exact ⟨⟨rfl, rfl, rfl, fun t => t⟩, rfl⟩
  · rw [eq]
    refine ⟨⟨rfl, rfl, rfl, fun t => t.becomeFollower ?_ now⟩, rfl⟩
    omega
  · rw [eq]
    unfold countVote
    dsimp only
    split
    · refine ⟨⟨rfl, rfl, rfl, fun t => ?_⟩, rfl⟩
      have counted := t.updateElection e (f := fun el =>
        { el with votesReceived := el.votesReceived + 1 }) fun _ => rfl
      exact ⟨t.term, fun _ => t.running (Or.inl candidate), counted.elections⟩
    · exact ⟨⟨rfl, rfl, rfl, fun t => t.updateElection e fun _ => rfl⟩, rfl⟩

/-! What the module keeps to. -/

theorem Indexed.calm (ix : cm.Indexed) (h : Calm cm cm') : cm'.Indexed where
  termed := h.termed ix.termed
  low := h.nextIndex ▸ ix.low
  asks := by
    rw [h.heartbeats, h.peerIds]
    exact ix.asks

theorem Indexed.updateHeartbeat (ix : cm.Indexed) {g : Heartbeat α → Heartbeat α}
    (asks : ∀ hb, cm.heartbeats[k]? = some hb → (g hb).Asks cm.peerIds) :
    (cm.updateHeartbeat k g).Indexed where
  termed := ⟨ix.termed.term, ix.termed.running, ix.termed.elections⟩
  low := ix.low
  asks hb mem := by
    rcases List.mem_or_eq_of_mem_modify mem with old | ⟨x, found, rfl⟩
    · exact ix.asks hb old
    · exact asks x found

theorem Indexed.leaderSendHeartbeats (ix : cm.Indexed) : cm.leaderSendHeartbeats.Indexed := by
  unfold ConsensusModule.leaderSendHeartbeats
  split
  · exact ix
  · next lead =>
    have leads := not_not.mp lead
    refine ⟨⟨ix.termed.term, ix.termed.running, ix.termed.elections⟩, ix.low, fun hb mem => ?_⟩
    rcases List.mem_append.mp mem with old | new
    · exact ix.asks hb old
    · obtain ⟨p, peer, rfl⟩ := List.mem_map.mp new
      exact ⟨ix.termed.running (Or.inr leads), peer, nofun, nofun⟩

theorem Indexed.heartbeatReply (ix : cm.Indexed) {args : AppendEntriesArgs α}
    {reply : AppendEntriesReply} (asks : hb.Asks cm.peerIds) (sent : hb.args = some args)
    (answered : hb.reply = some reply) (n : Nat) (now : Int) :
    (cm.heartbeatReply hb n reply now).Indexed := by
  rcases cm.heartbeatReply_writes hb n reply now with
    ⟨later, eq⟩ | ⟨_, term, _, _, _, eq⟩ | ⟨_, eq⟩
  · rw [eq]
    have pos := asks.saved
    exact ix.calm ⟨rfl, rfl, rfl, fun t => t.becomeFollower (by omega) now⟩
  · rw [eq]
    refine ⟨⟨ix.termed.term, ix.termed.running, ix.termed.elections⟩, fun p => ?_, ix.asks⟩
    exact get_insert_bounds (asks.next_nonneg sent answered term n) fun _ => ix.low p
  · rw [eq]
    exact ix

/-- A step that changes the log at most, where that is still long enough. -/
theorem Calm.roomy (h : Calm cm cm')
    (leader : cm'.state = .leader → ∀ p ∈ cm.peerIds, get cm.nextIndex p ≤ cm'.log.length)
    (waiting : ∀ hb ∈ cm.heartbeats, hb.args = none →
      get cm.nextIndex hb.peerId ≤ cm'.log.length) : cm'.Roomy where
  leader lead := by
    rw [h.peerIds, h.nextIndex]
    exact leader lead
  waiting := by
    rw [h.heartbeats, h.nextIndex]
    exact waiting

theorem Roomy.calm (rm : cm.Roomy) (h : Calm cm cm') (log : cm'.log = cm.log)
    (leads : cm'.state = .leader → cm.state = .leader) : cm'.Roomy := by
  apply h.roomy
  · rw [log]
    exact fun lead => rm.leader (leads lead)
  · rw [log]
    exact rm.waiting

theorem Roomy.updateHeartbeat (rm : cm.Roomy) {g : Heartbeat α → Heartbeat α}
    (waiting : ∀ hb, (g hb).args = none → hb.args = none ∧ (g hb).peerId = hb.peerId) :
    (cm.updateHeartbeat k g).Roomy where
  leader := rm.leader
  waiting hb mem unsent := by
    rcases List.mem_or_eq_of_mem_modify mem with old | ⟨x, found, rfl⟩
    · exact rm.waiting hb old unsent
    · obtain ⟨before, peer⟩ := waiting x unsent
      rw [peer]
      exact rm.waiting x (List.mem_of_getElem? found) before

theorem Roomy.leaderSendHeartbeats (rm : cm.Roomy) : cm.leaderSendHeartbeats.Roomy := by
  unfold ConsensusModule.leaderSendHeartbeats
  split
  · exact rm
  · next lead =>
    have leads := not_not.mp lead
    refine ⟨rm.leader, fun hb mem unsent => ?_⟩
    rcases List.mem_append.mp mem with old | new
    · exact rm.waiting hb old unsent
    · obtain ⟨p, peer, rfl⟩ := List.mem_map.mp new
      exact rm.leader leads p peer

theorem Roomy.heartbeatReply (rm : cm.Roomy) {n : Nat} {reply : AppendEntriesReply} (now : Int)
    (fits : cm.state = .leader → reply.term = hb.savedCurrentTerm →
      hb.next n reply.success ≤ cm.log.length) : (cm.heartbeatReply hb n reply now).Roomy := by
  rcases cm.heartbeatReply_writes hb n reply now with
    ⟨_, eq⟩ | ⟨lead, term, _, _, _, eq⟩ | ⟨_, eq⟩
  · rw [eq]
    exact ⟨nofun, rm.waiting⟩
  · rw [eq]
    have bound {p : Int} (old : get cm.nextIndex p ≤ cm.log.length) :
        get (cm.nextIndex.insert hb.peerId (hb.next n reply.success)) p ≤ cm.log.length :=
      get_insert_bounds (P := (· ≤ (cm.log.length : Int))) (fits lead term) fun _ => old
    exact ⟨fun _ p peer => bound (rm.leader lead p peer),
      fun hb mem unsent => bound (rm.waiting hb mem unsent)⟩
  · rw [eq]
    exact rm

theorem Roomy.submit (rm : cm.Roomy) (command : α) : (cm.submit command).Roomy := by
  unfold ConsensusModule.submit
  split
  · next lead =>
    have longer : (cm.log.length : Int) ≤
        (cm.log ++ [(⟨command, cm.currentTerm⟩ : LogEntry α)]).length := by
      rw [List.length_append]
      omega
    exact ⟨fun _ p peer => Int.le_trans (rm.leader lead p peer) longer,
      fun hb mem unsent => Int.le_trans (rm.waiting hb mem unsent) longer⟩
  · exact rm

theorem Roomy.slices (rm : cm.Roomy) (ix : cm.Indexed) : cm.ReadsInRange :=
  fun hb mem unsent => ⟨ix.low hb.peerId, rm.waiting hb mem unsent⟩

/-- The goroutines of the next round read the indices of all peers. -/
theorem ReadsInRange.roomy (waiting : cm.ReadsInRange)
    (next : cm.leaderSendHeartbeats.ReadsInRange) : cm.Roomy where
  leader lead p peer := by
    rw [leaderSendHeartbeats, if_neg (not_not.mpr lead)] at next
    exact (next _ (List.mem_append_right _ (List.mem_map_of_mem peer)) rfl).2
  waiting hb mem unsent := (waiting hb mem unsent).2

end ConsensusModule

namespace Network
open ConsensusModule (Indexed Roomy ReadsInRange)
variable {n : Nat} {h : List (Network α × Action α)} {s s' : Network α} {a : Action α}

/-- An index goes beyond the end of the log neither when a module becomes leader with what it
has in `nextIndex`, nor when a leader takes a reply, nor when the log is cut under a goroutine
that has still to read. -/
def StaysInside (s : Network α) : Action α → Prop
  | .voteReturn i e k now => ∀ p ∈ (s.node i).voteCall? e k, ∀ reply ∈ p.2.reply,
      (s.node i).state = .candidate → ((s.node i).voteReply e p.1 reply now).state = .leader →
      ∀ peer ∈ (s.node i).peerIds, get (s.node i).nextIndex peer ≤ (s.node i).log.length
  | .heartbeatReturn i k _ => ∀ hb ∈ (s.node i).heartbeats[k]?, ∀ args ∈ hb.args,
      ∀ reply ∈ hb.reply, (s.node i).state = .leader → reply.term = hb.savedCurrentTerm →
      hb.next args.entries.length reply.success ≤ (s.node i).log.length
  | .heartbeatServe i k now => ∀ hb ∈ (s.node i).heartbeats[k]?, ∀ args ∈ hb.args,
      ∀ x ∈ (s.node hb.peerId).heartbeats, x.args = none →
      get (s.node hb.peerId).nextIndex x.peerId ≤
        ((s.node hb.peerId).appendEntries args now).1.log.length
  | _ => True

instance (s : Network α) (a : Action α) : Decidable (s.StaysInside a) :=
  match a with
  | .voteReturn _ _ _ _ | .heartbeatReturn _ _ _ | .heartbeatServe _ _ _ =>
      inferInstanceAs (Decidable (∀ _, _ → _))
  | .timerStep _ _ _ _ | .voteSend _ _ _ | .voteServe _ _ _ _ | .voteFail _ _ _
  | .leaderSendHeartbeats _ | .heartbeatSend _ _ | .heartbeatFail _ _ | .submit _ _ | .stop _ =>
      inferInstanceAs (Decidable True)

theorem set_heartbeats {j : Int} {cm : ConsensusModule α}
    (same : cm.heartbeats = (s.node j).heartbeats) (i : Int) :
    ((s.set j cm).node i).heartbeats = (s.node i).heartbeats := by
  by_cases e : i = j
  · rw [e, set_node, Function.update_self, same]
  · rw [set_node, Function.update_of_ne e]

theorem Transition.indexed (tr : Transition s a s') (ix : ∀ i, (s.node i).Indexed) (i : Int) :
    (s'.node i).Indexed := by
  revert i
  cases tr with
  | tick i k now timeout cm ticks =>
      obtain ⟨_, _, rfl⟩ := ticks
      exact forall_set ix ((ix i).calm ⟨rfl, rfl, rfl, fun t => ⟨t.term, t.running, t.elections⟩⟩)
  | startElection i k now timeout timers _ =>
      refine forall_set ix ((ix i).calm ⟨rfl, rfl, rfl, fun t => ?_⟩)
      have timed : { s.node i with timers := timers }.Termed := ⟨t.term, t.running, t.elections⟩
      exact timed.startElection now
  | voteSend i e k el call _ _ | voteFail i e k el call _ =>
      exact forall_set ix ((ix i).calm ⟨rfl, rfl, rfl, fun t => t.updateElection e fun _ => rfl⟩)
  | voteServe i e k now el call args _ _ _ _ =>
      have served := forall_set (i := call.peerId) ix
        ((ix call.peerId).calm ((s.node call.peerId).calm_requestVote args now).1)
      exact forall_set served
        ((served i).calm ⟨rfl, rfl, rfl, fun t => t.updateElection e fun _ => rfl⟩)
  | voteReturn i e k now el call reply found _ _ =>
      have replied := (ix i).calm ((ix i).termed.voteReply_calm found reply now).1
      exact forall_set ix
        (replied.calm ⟨rfl, rfl, rfl, fun t => t.updateElection e fun _ => rfl⟩)
  | leaderSendHeartbeats i => exact forall_set ix (ix i).leaderSendHeartbeats
  | heartbeatSend i k hb found unsent low _ =>
      refine forall_set ix ((ix i).updateHeartbeat fun x at_ => ?_)
      obtain rfl : x = hb := Option.some.inj (at_.symm.trans found)
      have asks := (ix i).asks x (List.mem_of_getElem? found)
      refine ⟨asks.saved, asks.peer, ?_, fun reply answered refused => ?_⟩
      · rintro args ⟨⟩
        exact ⟨low, rfl, rfl⟩
      · exact absurd unsent (asks.refused reply answered refused).1
  | heartbeatServe i k now hb args found sent _ _ =>
      have calm := ((s.node hb.peerId).calm_appendEntries args now).1
      have served := forall_set (i := hb.peerId) ix ((ix hb.peerId).calm calm)
      refine forall_set served ((served i).updateHeartbeat fun x at_ => ?_)
      have asks := (served i).asks x (List.mem_of_getElem? at_)
      rw [set_heartbeats calm.heartbeats] at at_
      obtain rfl : x = hb := Option.some.inj (at_.symm.trans found)
      refine ⟨asks.saved, asks.peer, asks.args, fun reply answered refused => ?_⟩
      obtain ⟨_, term, previous⟩ := asks.args args sent
      have reply_eq := (Option.some.inj answered).trans refused
      rw [← term] at reply_eq
      have pos : 0 < args.term := term ▸ asks.saved
      have later := ConsensusModule.appendEntries_refusal pos reply_eq
      have start : x.ni ≠ 0 := by omega
      exact ⟨fun none => Option.some_ne_none _ (sent.symm.trans none), start⟩
  | heartbeatReturn i k now hb args reply found sent answered _ =>
      have received : ((s.node i).updateHeartbeat k (Heartbeat.receive reply)).Indexed := by
        refine (ix i).updateHeartbeat fun x at_ => ?_
        have asks := (ix i).asks x (List.mem_of_getElem? at_)
        exact ⟨asks.saved, asks.peer, asks.args, asks.refused⟩
      exact forall_set ix (received.heartbeatReply
        ((ix i).asks hb (List.mem_of_getElem? found)) sent answered _ now)
  | heartbeatFail i k hb _ =>
      refine forall_set ix ((ix i).updateHeartbeat fun x at_ => ?_)
      have asks := (ix i).asks x (List.mem_of_getElem? at_)
      exact ⟨asks.saved, asks.peer, asks.args, asks.refused⟩
  | submit i command =>
      refine forall_set ix ((ix i).calm ?_)
      unfold ConsensusModule.submit
      split
      · exact ⟨rfl, rfl, rfl, fun t => ⟨t.term, t.running, t.elections⟩⟩
      · exact ⟨rfl, rfl, rfl, fun t => t⟩
  | stop i =>
      exact forall_set ix ((ix i).calm ⟨rfl, rfl, rfl, fun t => ⟨t.term, nofun, t.elections⟩⟩)

theorem Transition.roomy (tr : Transition s a s') (ix : ∀ i, (s.node i).Indexed)
    (rm : ∀ i, (s.node i).Roomy) (inside : s.StaysInside a) (i : Int) : (s'.node i).Roomy := by
  revert i
  cases tr with
  | tick i k now timeout cm ticks =>
      obtain ⟨_, _, rfl⟩ := ticks
      exact forall_set rm ⟨(rm i).leader, (rm i).waiting⟩
  | startElection i k now timeout timers _ => exact forall_set rm ⟨nofun, (rm i).waiting⟩
  | voteSend i e k el call _ _ | voteFail i e k el call _ =>
      exact forall_set rm ⟨(rm i).leader, (rm i).waiting⟩
  | voteServe i e k now el call args _ _ _ _ =>
      obtain ⟨calm, log, leads⟩ := (s.node call.peerId).calm_requestVote args now
      have served := forall_set (i := call.peerId) rm ((rm call.peerId).calm calm log leads)
      exact forall_set served ⟨(served i).leader, (served i).waiting⟩
  | voteReturn i e k now el call reply found answered _ =>
      obtain ⟨calm, log⟩ := (ix i).termed.voteReply_calm found reply now
      have replied : ((s.node i).voteReply e el reply now).Roomy := by
        apply calm.roomy
        · intro lead
          rw [log]
          rcases (s.node i).voteReply_cases e el reply now with
            eq | ⟨_, _, eq⟩ | ⟨candidate, _, _⟩
          · exact (rm i).leader (eq ▸ lead)
          · rw [eq] at lead
            cases lead
          · exact inside (el, call) found reply answered candidate lead
        · rw [log]
          exact (rm i).waiting
      exact forall_set rm ⟨replied.leader, replied.waiting⟩
  | leaderSendHeartbeats i => exact forall_set rm (rm i).leaderSendHeartbeats
  | heartbeatSend i k hb _ _ _ _ =>
      exact forall_set rm ((rm i).updateHeartbeat fun _ unsent =>
        absurd unsent (Option.some_ne_none _))
  | heartbeatServe i k now hb args found sent _ _ =>
      obtain ⟨calm, leads⟩ := (s.node hb.peerId).calm_appendEntries args now
      have peer : ((s.node hb.peerId).appendEntries args now).1.Roomy := by
        apply calm.roomy
        · intro lead
          obtain ⟨led, log⟩ := leads lead
          rw [log]
          exact (rm hb.peerId).leader led
        · exact inside hb found args sent
      have served := forall_set (i := hb.peerId) rm peer
      exact forall_set served ((served i).updateHeartbeat fun _ unsent => ⟨unsent, rfl⟩)
  | heartbeatReturn i k now hb args reply found sent answered _ =>
      have received := (rm i).updateHeartbeat (k := k) (g := Heartbeat.receive reply)
        fun x unsent => ⟨unsent, rfl⟩
      have fits := inside hb found args sent reply answered
      exact forall_set rm (received.heartbeatReply now fits)
  | heartbeatFail i k hb _ =>
      exact forall_set rm ((rm i).updateHeartbeat fun _ unsent => ⟨unsent, rfl⟩)
  | submit i command => exact forall_set rm ((rm i).submit command)
  | stop i => exact forall_set rm ⟨nofun, (rm i).waiting⟩

/-- A step that does not stay inside leaves an index beyond the end of a log, for a goroutine
that has still to read it or for one that a leader may start. -/
theorem Transition.staysInside (tr : Transition s a s') (ix : ∀ i, (s.node i).Indexed)
    (after : ∀ i, (s'.node i).Roomy) : s.StaysInside a := by
  have self (t : Network α) (i : Int) (cm : ConsensusModule α) : (t.set i cm).node i = cm :=
    Function.update_self _ _ _
  cases tr with
  | voteReturn i e k now el call reply found answered _ =>
      rintro p found' reply' answered' candidate lead
      obtain rfl : (el, call) = p := Option.some.inj (found.symm.trans found')
      obtain rfl : reply = reply' := Option.some.inj (answered.symm.trans answered')
      obtain ⟨calm, log⟩ := (ix i).termed.voteReply_calm found reply now
      have room := (after i).leader
      rw [self] at room
      have room := room lead
      change ∀ p ∈ ((s.node i).voteReply e el reply now).peerIds,
        get ((s.node i).voteReply e el reply now).nextIndex p ≤
          ((s.node i).voteReply e el reply now).log.length at room
      rwa [calm.peerIds, calm.nextIndex, log] at room
  | heartbeatServe i k now hb args found sent _ _ =>
      rintro hb' found' args' sent' x mem unsent
      obtain rfl : hb = hb' := Option.some.inj (found.symm.trans found')
      obtain rfl : args = args' := Option.some.inj (sent.symm.trans sent')
      obtain ⟨calm, _⟩ := (s.node hb.peerId).calm_appendEntries args now
      rw [← calm.heartbeats] at mem
      rw [← calm.nextIndex]
      by_cases own : i = hb.peerId
      · subst own
        have waiting := (after hb.peerId).waiting
        rw [self, self] at waiting
        rw [← calm.heartbeats] at found
        rcases List.mem_modify_or_eq mem found _ with still | ⟨rfl, _⟩
        · exact waiting x still unsent
        · exact absurd (sent.symm.trans unsent) (Option.some_ne_none _)
      · have waiting := (after hb.peerId).waiting
        rw [set_node, Function.update_of_ne (Ne.symm own), self] at waiting
        exact waiting x mem unsent
  | heartbeatReturn i k now hb args reply found sent answered _ =>
      rintro hb' found' args' sent' reply' answered' lead term
      obtain rfl : hb = hb' := Option.some.inj (found.symm.trans found')
      obtain rfl : args = args' := Option.some.inj (sent.symm.trans sent')
      obtain rfl : reply = reply' := Option.some.inj (answered.symm.trans answered')
      have peer := ((ix i).asks hb (List.mem_of_getElem? found)).peer
      have room := (after i).leader
      rw [self] at room
      rcases ((s.node i).updateHeartbeat k (Heartbeat.receive reply)).heartbeatReply_writes hb
        args.entries.length reply now with ⟨later, _⟩ | ⟨_, _, _, _, _, eq⟩ | ⟨other, _⟩
      · omega
      · rw [eq] at room
        have fits := room lead hb.peerId peer
        rwa [get, AList.lookup_insert] at fits
      · exact absurd term (other lead)
  | _ => exact True.intro

theorem startUp_indexed (n : Nat) (i : Int) : ((startUp α n).node i).Indexed where
  termed := {
    term := Int.le_refl 0
    running := nofun
    elections := fun _ mem => absurd mem List.not_mem_nil }
  low _ := Int.le_refl 0
  asks _ mem := absurd mem List.not_mem_nil

theorem startUp_roomy (n : Nat) (i : Int) : ((startUp α n).node i).Roomy :=
  ⟨nofun, fun _ mem => absurd mem List.not_mem_nil⟩

theorem indexed (run : Run Network.step (startUp α n) h s) (i : Int) : (s.node i).Indexed :=
  run.always (I := fun s => ∀ i, (s.node i).Indexed) (startUp_indexed n)
    (fun _ _ _ ix hs => (Transition.of_step hs).2.indexed ix) i

theorem roomy_iff (run : Run Network.step (startUp α n) h s) :
    Meets StaysInside h ↔ ∀ t ∈ s :: h.map Prod.fst, ∀ i, (t.node i).Roomy := by
  induction run with
  | start =>
      refine iff_of_true (fun _ mem => absurd mem List.not_mem_nil) fun t mem => ?_
      rw [List.mem_singleton.mp mem]
      exact startUp_roomy n
  | @next h s s' a run hs ih =>
      have tr := (Transition.of_step hs).2
      rw [Meets.cons, ih, List.map_cons, List.forall_mem_cons (a := s')]
      constructor
      · rintro ⟨inside, before⟩
        exact ⟨tr.roomy (indexed run) (before s List.mem_cons_self) inside, before⟩
      · rintro ⟨after, before⟩
        exact ⟨tr.staysInside (indexed run) after, before⟩

/-- In the state that is reached and in all before, for the goroutines there are and for those
that a leader may start next. -/
theorem slicesInRange_iff (run : Run Network.step (startUp α n) h s) :
    Meets StaysInside h ↔ ∀ t ∈ s :: h.map Prod.fst, ∀ i,
      (t.node i).ReadsInRange ∧ (t.node i).leaderSendHeartbeats.ReadsInRange := by
  have reached : ∀ t ∈ s :: h.map Prod.fst, ∀ i, (t.node i).Indexed := by
    intro t mem i
    rcases List.mem_cons.mp mem with rfl | mem
    · exact indexed run i
    · obtain ⟨p, hp, rfl⟩ := List.mem_map.mp mem
      obtain ⟨_, _, before, _⟩ := run.before hp
      exact indexed before i
  rw [roomy_iff run]
  refine forall₂_congr fun t mem => forall_congr' fun i => ⟨fun rm => ?_, fun reads => ?_⟩
  · have ix := reached t mem i
    exact ⟨rm.slices ix, rm.leaderSendHeartbeats.slices ix.leaderSendHeartbeats⟩
  · exact reads.1.roomy reads.2

theorem slicesInRange_iff_plainCommit :
    ((outcome step (startUp Unit 3) plainCommit).2.node 0).ReadsInRange ∧
      ((outcome step (startUp Unit 3) plainCommit).2.node 0).leaderSendHeartbeats.ReadsInRange :=
  (slicesInRange_iff (outcome_run _ _ plainCommit)).mp (by decide +kernel) _ List.mem_cons_self 0

/-- Module 0 is elected in term 1 and replicates two entries to module 1. Module 2, which has
none of them, is elected in term 2 and replaces them with one entry of its own. Module 0 is
elected again in term 3. -/
def secondLeadership : List (Action Unit) :=
  [.timerStep 0 0 0 150, .timerStep 0 0 0 150, .timerStep 0 0 150 150,
    .voteSend 0 0 0, .voteServe 0 0 0 160, .voteReturn 0 0 0 170,
    .voteSend 0 0 1, .voteServe 0 0 1 160, .voteReturn 0 0 1 170,
    .submit 0 (), .submit 0 (), .leaderSendHeartbeats 0,
    .heartbeatSend 0 0, .heartbeatServe 0 0 180, .heartbeatReturn 0 0 190,
    .timerStep 2 1 200 150, .timerStep 2 1 400 150,
    .voteSend 2 0 2, .voteServe 2 0 2 410, .voteReturn 2 0 2 420,
    .voteSend 2 0 3, .voteServe 2 0 3 410, .voteReturn 2 0 3 420,
    .submit 2 (), .leaderSendHeartbeats 2, .heartbeatSend 2 0, .heartbeatServe 2 0 430,
    .timerStep 0 2 440 150, .timerStep 0 2 600 150,
    .voteSend 0 1 2, .voteServe 0 1 2 610, .voteReturn 0 1 2 620,
    .voteSend 0 1 3, .voteServe 0 1 3 610, .voteReturn 0 1 3 620, .leaderSendHeartbeats 0]

/-- Module 0 is about to read 2 for module 1, and its log has one entry. -/
theorem not_slicesInRange : ¬ ∀ (α : Type) (n : Nat) (h : List (Network α × Action α))
    (s : Network α), Run Network.step (startUp α n) h s → ∀ i, (s.node i).ReadsInRange := by
  intro always
  have waits : ∃ hb ∈ ((outcome step (startUp Unit 5) secondLeadership).2.node 0).heartbeats,
      hb.args = none ∧ hb.peerId = 1 := by decide +kernel
  have beyond : get ((outcome step (startUp Unit 5) secondLeadership).2.node 0).nextIndex 1 = 2 ∧
      ((outcome step (startUp Unit 5) secondLeadership).2.node 0).log.length = 1 := by
    decide +kernel
  obtain ⟨hb, mem, unsent, peer⟩ := waits
  obtain ⟨_, high⟩ := always Unit 5 _ _ (outcome_run _ _ secondLeadership) 0 hb mem unsent
  rw [peer, beyond.1, beyond.2] at high
  exact absurd high (by decide)

end Network
end Prototype
end OhMyDb
