import OhMyDb.Model.Prototype
import OhMyDb.Lib.Execution
import OhMyDb.Lib.Modify

/-!
What a step of the prototype can do, with everything that had to hold for it, and
what no step does: the ids and the peers of the modules never change.
-/

namespace OhMyDb
namespace Prototype
open Function (update)
variable {α : Type}

namespace ConsensusModule
variable {cm cm' : ConsensusModule α} {e k : Nat} {el : Election} {call : VoteCall}
  {hb : Heartbeat α}

/-- Steps that a timer makes without starting an election. -/
def Ticks (cm cm' : ConsensusModule α) : Prop :=
  ∃ reset timers, cm' = { cm with electionResetEvent := reset, timers := timers }

theorem timerStep_cases {now timeout : Int} (h : cm.timerStep k now timeout = some cm') :
    cm.Ticks cm' ∨ ((cm.state = .candidate ∨ cm.state = .follower) ∧
      ∃ timers, cm' = { cm with timers := timers }.startElection now) := by
  unfold timerStep at h
  split at h
  · exact Or.inl ⟨_, _, (Option.some.inj h).symm⟩
  · exact Or.inl ⟨_, _, (Option.some.inj h).symm⟩
  · split at h
    · exact Or.inl ⟨_, _, (Option.some.inj h).symm⟩
    · next running =>
      split at h
      · exact Or.inl ⟨_, _, (Option.some.inj h).symm⟩
      · split at h
        · refine Or.inr ⟨?_, _, (Option.some.inj h).symm⟩
          by_contra other
          exact running (not_or.mp other)
        · exact Or.inl ⟨_, _, (Option.some.inj h).symm⟩
  · cases h

theorem voteCall?_eq_some : cm.voteCall? e k = some (el, call) ↔
    cm.elections[e]? = some el ∧ el.calls[k]? = some call := by
  simp only [voteCall?, Option.bind_eq_some_iff, Option.map_eq_some_iff, Prod.mk.injEq]
  constructor
  · rintro ⟨el', he, call', hc, rfl, rfl⟩
    exact ⟨he, hc⟩
  · rintro ⟨he, hc⟩
    exact ⟨el, he, call, hc, rfl, rfl⟩

theorem voteSend_eq_some (h : cm.voteSend e k = some cm') : ∃ el call,
    cm.voteCall? e k = some (el, call) ∧ call.args = none ∧
      cm' = cm.updateVoteCall e k fun call =>
        { call with args := some (cm.requestVoteArgs el.savedCurrentTerm) } := by
  unfold voteSend at h
  split at h
  · next el call found =>
    obtain ⟨unsent, rfl⟩ := Option.ite_none_right_eq_some.mp h |>.imp_right Option.some.inj
    exact ⟨el, call, found, Option.isNone_iff_eq_none.mp unsent, rfl⟩
  · cases h

theorem voteReturn_eq_some {now : Int} (h : cm.voteReturn e k now = some cm') :
    ∃ el call reply, cm.voteCall? e k = some (el, call) ∧ call.reply = some reply ∧
      call.returned = false ∧ cm' = (cm.voteReply e el reply now).updateVoteCall e k
        fun call => { call with returned := true } := by
  unfold voteReturn at h
  split at h
  · next el call found =>
    split at h
    · next reply answered =>
      obtain ⟨waiting, rfl⟩ := Option.ite_none_right_eq_some.mp h |>.imp_right Option.some.inj
      exact ⟨el, call, reply, found, answered, waiting, rfl⟩
    · cases h
  · cases h

theorem voteFail_eq_some (h : cm.voteFail e k = some cm') : ∃ el call,
    cm.voteCall? e k = some (el, call) ∧
      cm' = cm.updateVoteCall e k fun call => { call with returned := true } := by
  unfold voteFail at h
  split at h
  · next el call found =>
    obtain ⟨_, rfl⟩ := Option.ite_none_right_eq_some.mp h |>.imp_right Option.some.inj
    exact ⟨el, call, found, rfl⟩
  · cases h

theorem heartbeatSend_eq_some (h : cm.heartbeatSend k = some cm') : ∃ hb,
    cm.heartbeats[k]? = some hb ∧ hb.args = none ∧ 0 ≤ get cm.nextIndex hb.peerId ∧
      get cm.nextIndex hb.peerId ≤ cm.log.length ∧ cm' = cm.updateHeartbeat k fun hb' =>
        { hb' with
          ni := get cm.nextIndex hb.peerId
          args := some (cm.appendEntriesArgs hb'.savedCurrentTerm
            (get cm.nextIndex hb.peerId)) } := by
  unfold heartbeatSend at h
  split at h
  · next hb found =>
    obtain ⟨⟨unsent, low, high⟩, rfl⟩ :=
      Option.ite_none_right_eq_some.mp h |>.imp_right Option.some.inj
    exact ⟨hb, found, Option.isNone_iff_eq_none.mp unsent, low, high, rfl⟩
  · cases h

theorem heartbeatReturn_eq_some {now : Int} (h : cm.heartbeatReturn k now = some cm') :
    ∃ hb args reply, cm.heartbeats[k]? = some hb ∧ hb.args = some args ∧
      hb.reply = some reply ∧ hb.returned = false ∧
      cm' = (cm.updateHeartbeat k (Heartbeat.receive reply)).heartbeatReply hb
        args.entries.length reply now := by
  unfold heartbeatReturn at h
  split at h
  · next hb found =>
    split at h
    · next args reply sent answered =>
      obtain ⟨waiting, rfl⟩ := Option.ite_none_right_eq_some.mp h |>.imp_right Option.some.inj
      exact ⟨hb, args, reply, found, sent, answered, waiting, rfl⟩
    · cases h
  · cases h

theorem heartbeatFail_eq_some (h : cm.heartbeatFail k = some cm') : ∃ hb,
    cm.heartbeats[k]? = some hb ∧
      cm' = cm.updateHeartbeat k fun hb => { hb with returned := true } := by
  unfold heartbeatFail at h
  split at h
  · next hb found =>
    obtain ⟨_, rfl⟩ := Option.ite_none_right_eq_some.mp h |>.imp_right Option.some.inj
    exact ⟨hb, found, rfl⟩
  · cases h

/-- What a reply to a request for a vote can do. -/
theorem voteReply_cases (cm : ConsensusModule α) (e : Nat) (el : Election)
    (reply : RequestVoteReply) (now : Int) :
    cm.voteReply e el reply now = cm ∨
    (cm.state = .candidate ∧ el.savedCurrentTerm < reply.term ∧
      cm.voteReply e el reply now = cm.becomeFollower reply.term now) ∨
    (cm.state = .candidate ∧ reply = ⟨el.savedCurrentTerm, true⟩ ∧
      cm.voteReply e el reply now = cm.countVote e el) := by
  unfold voteReply
  split
  · exact Or.inl rfl
  · next running =>
    have candidate := not_not.mp running
    split
    · next later => exact Or.inr (Or.inl ⟨candidate, later, rfl⟩)
    · split
      · next same =>
        refine Or.inr (Or.inr ⟨candidate, ?_, rfl⟩)
        cases reply
        exact congr (congrArg _ same.1) same.2
      · exact Or.inl rfl

/-- A commit that the commit loop may make. -/
structure Decides (cm : ConsensusModule α) (c : Commit α) : Prop where
  term : c.term = cm.currentTerm
  log : c.log = cm.log
  inside : 0 ≤ c.commitIndex ∧ c.commitIndex < cm.log.length
  behind : cm.commitIndex < c.commitIndex
  current : (at? cm.log c.commitIndex).map (·.term) = some cm.currentTerm
  counted : c.counted = cm.counted c.commitIndex
  majority : cm.peerIds.length + 1 < (1 + c.counted.length) * 2

theorem at?_isSome {log : List (LogEntry α)} {i : Int} {e : LogEntry α} (h : at? log i = some e) :
    0 ≤ i ∧ i < log.length := by
  unfold at? at h
  split at h
  · next pos =>
    have := (List.getElem?_eq_some_iff.mp h).1
    omega
  · cases h

theorem commitStep_eq {x : ConsensusModule α} {i : Int} (behind : cm.commitIndex < i)
    (same : ∃ commitIndex hist, x = { cm with commitIndex := commitIndex, hist := hist }) :
    x.commitStep i = x ∨ ∃ c, cm.Decides c ∧
      x.commitStep i = { x with commitIndex := i, hist := .commit c :: x.hist } := by
  obtain ⟨commitIndex, hist, rfl⟩ := same
  unfold commitStep
  split
  · next current =>
    split
    · next most =>
      obtain ⟨entry, found, _⟩ := Option.map_eq_some_iff.mp current
      exact Or.inr ⟨_, ⟨rfl, rfl, at?_isSome found, behind, current, rfl, most⟩, rfl⟩
    · exact Or.inl rfl
  · exact Or.inl rfl

/-- The commit loop moves `commitIndex` and nothing else. -/
theorem commitLoop_eq (cm : ConsensusModule α) : ∃ commitIndex commits,
    cm.commitLoop = { cm with commitIndex := commitIndex, hist := commits ++ cm.hist } ∧
      ∀ ev ∈ commits, ∃ c, ev = .commit c ∧ cm.Decides c := by
  unfold commitLoop
  generalize (cm.log.length - (cm.commitIndex + 1)).toNat = n
  induction n with
  | zero => exact ⟨cm.commitIndex, [], rfl, fun _ h => absurd h List.not_mem_nil⟩
  | succ n ih =>
      obtain ⟨commitIndex, commits, eq, decided⟩ := ih
      rw [List.range_succ, List.foldl_append, eq]
      have behind : cm.commitIndex < cm.commitIndex + 1 + n := by omega
      rcases commitStep_eq behind ⟨commitIndex, commits ++ cm.hist, rfl⟩ with
        same | ⟨c, decides, next⟩
      · exact ⟨commitIndex, commits, same, decided⟩
      · refine ⟨_, .commit c :: commits, next, fun ev h => ?_⟩
        rcases List.mem_cons.mp h with rfl | h
        · exact ⟨c, rfl, decides⟩
        · exact decided ev h

/-- The maps once a leader has taken a successful reply. -/
def advance (cm : ConsensusModule α) (hb : Heartbeat α) (n : Nat) : ConsensusModule α :=
  { cm with
    nextIndex := cm.nextIndex.insert hb.peerId (hb.ni + n)
    matchIndex := cm.matchIndex.insert hb.peerId (hb.ni + n - 1) }

/-- What a reply to a heartbeat can do. -/
theorem heartbeatReply_cases (cm : ConsensusModule α) (hb : Heartbeat α) (n : Nat)
    (reply : AppendEntriesReply) (now : Int) :
    (hb.savedCurrentTerm < reply.term ∧
      cm.heartbeatReply hb n reply now = cm.becomeFollower reply.term now) ∨
    (cm.state = .leader ∧ reply = ⟨hb.savedCurrentTerm, true⟩ ∧
      cm.heartbeatReply hb n reply now = (cm.advance hb n).commitLoop) ∨
    ((cm.state = .leader → reply ≠ ⟨hb.savedCurrentTerm, true⟩) ∧
      ∃ nextIndex, cm.heartbeatReply hb n reply now = { cm with nextIndex := nextIndex }) := by
  unfold heartbeatReply
  split
  · next later => exact Or.inl ⟨later, rfl⟩
  · split
    · next lead =>
      split
      · next success =>
        refine Or.inr (Or.inl ⟨lead.1, ?_, rfl⟩)
        cases reply
        exact congr (congrArg _ lead.2.symm) success
      · next failed => exact Or.inr (Or.inr ⟨fun _ h => failed (by rw [h]), _, rfl⟩)
    · next other =>
      exact Or.inr (Or.inr ⟨fun lead h => other ⟨lead, by rw [h]⟩, cm.nextIndex, rfl⟩)

end ConsensusModule

namespace Network
variable {s s' : Network α} {a : Action α}

@[simp] theorem set_servers (s : Network α) (i : Int) (cm : ConsensusModule α) :
    (s.set i cm).servers = s.servers := rfl

@[simp] theorem set_node (s : Network α) (i : Int) (cm : ConsensusModule α) :
    (s.set i cm).node = update s.node i cm := rfl

/-- A step changes the module that takes it, and the peer that serves a request. -/
theorem forall_set {P : ConsensusModule α → Prop} (all : ∀ i, P (s.node i)) {i : Int}
    {cm : ConsensusModule α} (new : P cm) (j : Int) : P ((s.set i cm).node j) := by
  by_cases e : j = i
  · subst e
    simpa using new
  · simpa [e] using all j

/-- The effect of an action that can be taken. -/
inductive Transition (s : Network α) : Action α → Network α → Prop where
  | tick (i : Int) (k : Nat) (now timeout : Int) (cm : ConsensusModule α) :
      (s.node i).Ticks cm → Transition s (.timerStep i k now timeout) (s.set i cm)
  | startElection (i : Int) (k : Nat) (now timeout : Int) (timers : List Timer) :
      (s.node i).state = .candidate ∨ (s.node i).state = .follower →
      Transition s (.timerStep i k now timeout)
        (s.set i ({ s.node i with timers := timers }.startElection now))
  | voteSend (i : Int) (e k : Nat) (el : Election) (call : VoteCall) :
      (s.node i).voteCall? e k = some (el, call) → call.args = none →
      Transition s (.voteSend i e k) (s.set i ((s.node i).updateVoteCall e k fun call =>
        { call with args := some ((s.node i).requestVoteArgs el.savedCurrentTerm) }))
  | voteServe (i : Int) (e k : Nat) (now : Int) (el : Election) (call : VoteCall)
      (args : RequestVoteArgs) :
      (s.node i).voteCall? e k = some (el, call) → call.args = some args → call.reply = none →
      call.peerId ∈ s.servers →
      Transition s (.voteServe i e k now)
        ((s.set call.peerId ((s.node call.peerId).requestVote args now).1).set i
          (((s.set call.peerId ((s.node call.peerId).requestVote args now).1).node
            i).updateVoteCall e k fun call' =>
              { call' with reply := some ((s.node call.peerId).requestVote args now).2 }))
  | voteReturn (i : Int) (e k : Nat) (now : Int) (el : Election) (call : VoteCall)
      (reply : RequestVoteReply) :
      (s.node i).voteCall? e k = some (el, call) → call.reply = some reply →
      call.returned = false →
      Transition s (.voteReturn i e k now)
        (s.set i (((s.node i).voteReply e el reply now).updateVoteCall e k fun call =>
          { call with returned := true }))
  | voteFail (i : Int) (e k : Nat) (el : Election) (call : VoteCall) :
      (s.node i).voteCall? e k = some (el, call) →
      Transition s (.voteFail i e k) (s.set i ((s.node i).updateVoteCall e k fun call =>
        { call with returned := true }))
  | leaderSendHeartbeats (i : Int) :
      Transition s (.leaderSendHeartbeats i) (s.set i (s.node i).leaderSendHeartbeats)
  | heartbeatSend (i : Int) (k : Nat) (hb : Heartbeat α) :
      (s.node i).heartbeats[k]? = some hb → hb.args = none →
      0 ≤ get (s.node i).nextIndex hb.peerId →
      get (s.node i).nextIndex hb.peerId ≤ (s.node i).log.length →
      Transition s (.heartbeatSend i k) (s.set i ((s.node i).updateHeartbeat k fun hb' =>
        { hb' with
          ni := get (s.node i).nextIndex hb.peerId
          args := some ((s.node i).appendEntriesArgs hb'.savedCurrentTerm
            (get (s.node i).nextIndex hb.peerId)) }))
  | heartbeatServe (i : Int) (k : Nat) (now : Int) (hb : Heartbeat α)
      (args : AppendEntriesArgs α) :
      (s.node i).heartbeats[k]? = some hb → hb.args = some args → hb.reply = none →
      hb.peerId ∈ s.servers →
      Transition s (.heartbeatServe i k now)
        ((s.set hb.peerId ((s.node hb.peerId).appendEntries args now).1).set i
          (((s.set hb.peerId ((s.node hb.peerId).appendEntries args now).1).node
            i).updateHeartbeat k fun hb' =>
              { hb' with reply := some ((s.node hb.peerId).appendEntries args now).2 }))
  | heartbeatReturn (i : Int) (k : Nat) (now : Int) (hb : Heartbeat α)
      (args : AppendEntriesArgs α) (reply : AppendEntriesReply) :
      (s.node i).heartbeats[k]? = some hb → hb.args = some args → hb.reply = some reply →
      hb.returned = false →
      Transition s (.heartbeatReturn i k now)
        (s.set i (((s.node i).updateHeartbeat k (Heartbeat.receive reply)).heartbeatReply hb
          args.entries.length reply now))
  | heartbeatFail (i : Int) (k : Nat) (hb : Heartbeat α) :
      (s.node i).heartbeats[k]? = some hb →
      Transition s (.heartbeatFail i k)
        (s.set i ((s.node i).updateHeartbeat k fun hb => { hb with returned := true }))
  | submit (i : Int) (command : α) :
      Transition s (.submit i command) (s.set i ((s.node i).submit command))
  | stop (i : Int) : Transition s (.stop i) (s.set i (s.node i).stop)

theorem locally_eq_some {i : Int} {f : ConsensusModule α → Option (ConsensusModule α)}
    (h : s.locally i f = some s') : ∃ cm, f (s.node i) = some cm ∧ s' = s.set i cm := by
  obtain ⟨cm, hf, rfl⟩ := Option.map_eq_some_iff.mp h
  exact ⟨cm, hf, rfl⟩

theorem voteServe_eq_some {i now : Int} {e k : Nat} (h : s.voteServe i e k now = some s') :
    ∃ el call args, (s.node i).voteCall? e k = some (el, call) ∧ call.args = some args ∧
      call.reply = none ∧ call.peerId ∈ s.servers ∧
      s' = (s.set call.peerId ((s.node call.peerId).requestVote args now).1).set i
        (((s.set call.peerId ((s.node call.peerId).requestVote args now).1).node
          i).updateVoteCall e k fun call' =>
            { call' with reply := some ((s.node call.peerId).requestVote args now).2 }) := by
  unfold voteServe at h
  split at h
  · next el call found =>
    split at h
    · next args sent =>
      obtain ⟨⟨unserved, peer⟩, rfl⟩ :=
        Option.ite_none_right_eq_some.mp h |>.imp_right Option.some.inj
      exact ⟨el, call, args, found, sent, Option.isNone_iff_eq_none.mp unserved, peer, rfl⟩
    · cases h
  · cases h

theorem heartbeatServe_eq_some {i now : Int} {k : Nat}
    (h : s.heartbeatServe i k now = some s') :
    ∃ hb args, (s.node i).heartbeats[k]? = some hb ∧ hb.args = some args ∧ hb.reply = none ∧
      hb.peerId ∈ s.servers ∧
      s' = (s.set hb.peerId ((s.node hb.peerId).appendEntries args now).1).set i
        (((s.set hb.peerId ((s.node hb.peerId).appendEntries args now).1).node
          i).updateHeartbeat k fun hb' =>
            { hb' with reply := some ((s.node hb.peerId).appendEntries args now).2 }) := by
  unfold heartbeatServe at h
  split at h
  · next hb found =>
    split at h
    · next args sent =>
      obtain ⟨⟨unserved, peer⟩, rfl⟩ :=
        Option.ite_none_right_eq_some.mp h |>.imp_right Option.some.inj
      exact ⟨hb, args, found, sent, Option.isNone_iff_eq_none.mp unserved, peer, rfl⟩
    · cases h
  · cases h

theorem Transition.of_step (h : s.step a = some s') : a.node ∈ s.servers ∧ Transition s a s' := by
  obtain ⟨server, h⟩ := Option.ite_none_right_eq_some.mp h
  refine ⟨server, ?_⟩
  unfold act at h
  cases a with
  | timerStep i k now timeout =>
      obtain ⟨cm, hs, rfl⟩ := locally_eq_some h
      rcases ConsensusModule.timerStep_cases hs with ticks | ⟨running, timers, rfl⟩
      · exact .tick i k now timeout cm ticks
      · exact .startElection i k now timeout timers running
  | voteSend i e k =>
      obtain ⟨cm, hs, rfl⟩ := locally_eq_some h
      obtain ⟨el, call, found, unsent, rfl⟩ := ConsensusModule.voteSend_eq_some hs
      exact .voteSend i e k el call found unsent
  | voteServe i e k now =>
      obtain ⟨el, call, args, found, sent, unserved, peer, rfl⟩ := voteServe_eq_some h
      exact .voteServe i e k now el call args found sent unserved peer
  | voteReturn i e k now =>
      obtain ⟨cm, hs, rfl⟩ := locally_eq_some h
      obtain ⟨el, call, reply, found, answered, waiting, rfl⟩ :=
        ConsensusModule.voteReturn_eq_some hs
      exact .voteReturn i e k now el call reply found answered waiting
  | voteFail i e k =>
      obtain ⟨cm, hs, rfl⟩ := locally_eq_some h
      obtain ⟨el, call, found, rfl⟩ := ConsensusModule.voteFail_eq_some hs
      exact .voteFail i e k el call found
  | leaderSendHeartbeats i =>
      obtain ⟨cm, hs, rfl⟩ := locally_eq_some h
      obtain rfl := Option.some.inj hs
      exact .leaderSendHeartbeats i
  | heartbeatSend i k =>
      obtain ⟨cm, hs, rfl⟩ := locally_eq_some h
      obtain ⟨hb, found, unsent, low, high, rfl⟩ := ConsensusModule.heartbeatSend_eq_some hs
      exact .heartbeatSend i k hb found unsent low high
  | heartbeatServe i k now =>
      obtain ⟨hb, args, found, sent, unserved, peer, rfl⟩ := heartbeatServe_eq_some h
      exact .heartbeatServe i k now hb args found sent unserved peer
  | heartbeatReturn i k now =>
      obtain ⟨cm, hs, rfl⟩ := locally_eq_some h
      obtain ⟨hb, args, reply, found, sent, answered, waiting, rfl⟩ :=
        ConsensusModule.heartbeatReturn_eq_some hs
      exact .heartbeatReturn i k now hb args reply found sent answered waiting
  | heartbeatFail i k =>
      obtain ⟨cm, hs, rfl⟩ := locally_eq_some h
      obtain ⟨hb, found, rfl⟩ := ConsensusModule.heartbeatFail_eq_some hs
      exact .heartbeatFail i k hb found
  | submit i command =>
      obtain ⟨cm, hs, rfl⟩ := locally_eq_some h
      obtain rfl := Option.some.inj hs
      exact .submit i command
  | stop i =>
      obtain ⟨cm, hs, rfl⟩ := locally_eq_some h
      obtain rfl := Option.some.inj hs
      exact .stop i

end Network
end Prototype
end OhMyDb
