import OhMyDb.Prototype.Voting

/-!
The log side of the simulation, and the refinement: a run that keeps to the two
conditions of the election side ends in a network that stands for a reachable state of
leader-based replication.
-/

namespace OhMyDb
namespace Prototype
open Execution
open LeaderLog (Step Steps Evolves Elsewhere Held Merged Message Ack)
open Network
variable {α : Type}

section Followers
variable {servers : List Int} {b b' : AbstractState α} {i : Int} {cm : ConsensusModule α}
  {args : AppendEntriesArgs α} {m : Message Int α} {hb : Heartbeat α}

/-- A candidate that meets the leader of its term gives its own vote up. -/
theorem Stands.observeLeader (st : Stands b i cm) (reached : Reached servers b) {l : Int}
    (leader : b.leader cm.currentTerm = some l) (other : l ≠ i) (alive : cm.state ≠ .unknown)
    (now : Int) :
    ∃ b', Steps (quorums servers) .pastLeader b b' ∧ Elsewhere i b b' ∧ b'.acks = b.acks ∧
      Stands b' i (cm.observeLeader cm.currentTerm now) := by
  unfold ConsensusModule.observeLeader
  split
  · next running =>
    have candidate : cm.state = .candidate := by
      cases h : cm.state with
      | follower => exact absurd h running
      | candidate => rfl
      | leader =>
          have led := reached.sound.voting.leader_role i (by rw [st.mirrors.role, h]; rfl)
          rw [st.mirrors.term, leader] at led
          exact absurd (Option.some.inj led) other
      | unknown => exact absurd h alive
    obtain ⟨step, st'⟩ := st.becomeFollower reached le_rfl now fun w hw voter same => by
      have own : w.candidate = i := by
        rcases st.votes.votedFor w hw voter same with votedFor | ⟨own, _⟩
        · exact votedFor.symm.trans (st.votes.candidate candidate)
        · exact own
      exact ⟨own, ⟨w, hw, voter, own, rfl⟩, l, same ▸ leader, other⟩
    exact ⟨_, .single step, LeaderLog.elsewhere_observe b i _, rfl, { st' with }⟩
  · exact ⟨b, .refl, .refl i b, rfl, { st with
      mirrors := { st.mirrors with }
      votes := st.votes.congr rfl rfl (fun h => h) fun _ _ h => h }⟩

theorem observeLeader_state (cm : ConsensusModule α) (term now : Int) :
    (cm.observeLeader term now).state = .follower := by
  unfold ConsensusModule.observeLeader
  split
  · rfl
  · next follower => exact not_not.mp follower

theorem observeLeader_term (cm : ConsensusModule α) (now : Int) :
    (cm.observeLeader cm.currentTerm now).currentTerm = cm.currentTerm := by
  unfold ConsensusModule.observeLeader
  split <;> rfl

theorem observeTerm_alive (alive : cm.state ≠ .unknown) (term now : Int) :
    (cm.observeTerm term now).state ≠ .unknown := by
  unfold ConsensusModule.observeTerm
  split
  · exact fun h => by cases h
  · exact alive

/-- The check of the previous entry makes the two logs agree up to it. -/
theorem prevMatches_take {log : List (LogEntry α)} (reached : Reached servers b)
    (mine : b.log i = abstractLog log) (mem : m ∈ b.messages) (enc : Encodes m.log hb.ni args)
    (prev : prevMatches log args) : hb.ni.toNat ≤ log.length ∧
      (abstractLog log).take hb.ni.toNat = m.log.take hb.ni.toNat := by
  obtain ⟨low, high⟩ := enc.inside
  have index := enc.prevLogIndex
  rcases prev with prev | ⟨inside, prev⟩
  · rw [show hb.ni.toNat = 0 by omega]
    exact ⟨Nat.zero_le _, rfl⟩
  · obtain ⟨e, he, term⟩ := Option.map_eq_some_iff.mp prev
    have pos := (ConsensusModule.at?_isSome he).1
    rw [at?, if_pos pos, index] at he
    have short : (hb.ni - 1).toNat < m.log.length := by omega
    have theirs := List.getElem?_eq_getElem short
    have own : (abstractLog log)[(hb.ni - 1).toNat]? = some ⟨e.term, e.command⟩ := by
      rw [abstractLog, List.getElem?_map, he]
      rfl
    have same := term.trans (enc.prevLogTerm _ theirs (by omega))
    have genuine := reached.sound.matching
    have agree := (mine ▸ genuine.log i).match (genuine.message m mem) own theirs same
    rw [show hb.ni.toNat = (hb.ni - 1).toNat + 1 by omega]
    exact ⟨(List.getElem?_eq_some_iff.mp he).1, agree⟩

/-- A follower takes over what the message carries. -/
theorem Stands.accept (st : Stands b i cm) (reached : Reached servers b)
    (mem : m ∈ b.messages) (enc : Encodes m.log hb.ni args) (term : m.term = cm.currentTerm)
    (follower : cm.state = .follower) (prev : prevMatches cm.log args) :
    Step (quorums servers) .pastLeader b
      (b.accept i m (abstractLog (merge cm.log (args.prevLogIndex + 1).toNat args.entries))) ∧
    Stands (b.accept i m (abstractLog (merge cm.log (args.prevLogIndex + 1).toNat args.entries)))
      i { cm with log := merge cm.log (args.prevLogIndex + 1).toNat args.entries } := by
  have mi := st.mirrors
  have start : (args.prevLogIndex + 1).toNat = hb.ni.toNat := by
    have := enc.prevLogIndex
    omega
  have step : Step (quorums servers) .pastLeader b
      (b.accept i m (abstractLog (merge cm.log (args.prevLogIndex + 1).toNat args.entries))) := by
    refine .accept b i m _ mem (mi.term.trans term.symm) (by rw [mi.role, follower]; rfl) ?_
    obtain ⟨inside, agree⟩ := prevMatches_take reached mi.log mem enc prev
    have genuine := reached.sound.matching
    have mine : LeaderLog.Genuine b (abstractLog cm.log) := mi.log ▸ genuine.log i
    rw [start, merge_mergeAt, enc.entries, mi.log]
    exact (mine.alike (genuine.message m mem)).mergeAt (by rwa [abstractLog_length]) agree
  have e := reached.evolves (.single step)
  refine ⟨step, ⟨mi.term, mi.role, ?_⟩, ?_, st.requested.evolve e, st.sends.evolve e, st.led⟩
  · simp [LeaderLog.State.accept]
  · exact (st.votes.evolve e rfl).congr rfl rfl (fun h => h) fun _ _ h => h

/-- The answer to a heartbeat, and what the sender may conclude from the reply. -/
theorem Stands.appendEntries (st : Stands b i cm) (reached : Reached servers b)
    (carries : Carries b hb args m) (leader : b.leader m.term = some m.sender)
    (other : m.sender ≠ i) (now : Int) :
    ∃ b', Steps (quorums servers) .pastLeader b b' ∧ Elsewhere i b b' ∧
      (∀ a ∈ b'.acks, a ∈ b.acks ∨ Held b' a) ∧ Stands b' i (cm.appendEntries args now).1 ∧
      ((cm.appendEntries args now).2.success = true →
        ⟨i, m.term, m.log.length⟩ ∈ b'.acks ∨ m.term < b'.term m.sender) := by
  have messageTerm : m.term = args.term := carries.term.trans carries.argsTerm.symm
  unfold ConsensusModule.appendEntries
  split
  · exact ⟨b, .refl, .refl i b, fun _ => Or.inl, st, fun h => by cases h⟩
  · next alive =>
    obtain ⟨b₁, steps, el, acks, st₁⟩ := st.observeTerm reached args.term now
    dsimp only
    split
    · next term =>
      have reached₁ : Reached servers b₁ := reached.trans steps
      have leader₁ := (reached.evolves steps).leader _ _ leader
      rw [messageTerm, term] at leader₁
      obtain ⟨b₂, steps', el', acks', st₂⟩ := st₁.observeLeader reached₁ leader₁ other
        (observeTerm_alive alive args.term now) now
      rw [← term] at st₂
      have reached₂ : Reached servers b₂ := reached₁.trans steps'
      have steps₂ := steps.trans steps'
      split
      · next prev =>
        have current := observeLeader_term (cm.observeTerm args.term now) now
        rw [← term] at current
        obtain ⟨step, st₃⟩ := st₂.accept reached₂ ((reached.evolves steps₂).messages carries.mem)
          carries.encodes (messageTerm.trans current.symm) (observeLeader_state _ _ _) prev
        refine ⟨_, steps₂.tail step, (el.trans el').trans (LeaderLog.elsewhere_accept _ _ _ _),
          fun a ha => ?_, st₃, fun _ => ?_⟩
        · rw [← acks, ← acks']
          exact step.held reached₂.sound.matching ha
        · have mem := (reached.evolves steps₂).messages carries.mem
          rcases reached₂.sound.retained.message_at m mem with led | ⟨later, _⟩
          · exact Or.inl (Or.inr ⟨rfl, led⟩)
          · exact Or.inr later
      · exact ⟨b₂, steps₂, el.trans el', fun a ha => Or.inl (acks ▸ acks' ▸ ha), st₂,
          fun h => by cases h⟩
    · exact ⟨b₁, steps, el, fun a ha => Or.inl (acks ▸ ha), st₁, fun h => by cases h⟩

end Followers
section Leaders
variable {servers : List Int} {b b' : AbstractState α} {i : Int} {cm : ConsensusModule α}
  {s : Network α} {n : Nat}

theorem Stands.leader (st : Stands b i cm) (reached : Reached servers b)
    (lead : cm.state = .leader) : b.leader cm.currentTerm = some i := by
  have led := reached.sound.voting.leader_role i (by rw [st.mirrors.role, lead]; rfl)
  rwa [st.mirrors.term] at led

theorem Stands.submit (st : Stands b i cm) (reached : Reached servers b) (command : α) :
    Answers servers b i (cm.submit command) := by
  have m := st.mirrors
  unfold ConsensusModule.submit
  split
  · next lead =>
    have step : Step (quorums servers) .pastLeader b (b.append i command) :=
      .append b i command (by rw [m.role, lead]; rfl)
    have e := reached.evolves (.single step)
    refine .step reached step { Elsewhere.refl i b with log := fun j h => ?_ }
      ⟨⟨m.term, m.role, ?_⟩, ?_, st.requested.evolve e, st.sends.evolve e, ?_⟩
    · simp [LeaderLog.State.append, h]
    · simp [LeaderLog.State.append, m.log, m.term, abstractLog]
    · exact (st.votes.evolve e rfl).congr rfl rfl (fun h => h) fun _ _ h => h
    · exact fun t h => e.leader t i (st.led t h)
  · exact .same st

theorem Stands.stop (st : Stands b i cm) (reached : Reached servers b) :
    Answers servers b i cm.stop := by
  have m := st.mirrors
  have step : Step (quorums servers) .pastLeader b (b.observe i (b.term i)) :=
    .observe b i _ le_rfl
  have e := reached.evolves (.single step)
  refine .step reached step (LeaderLog.elsewhere_observe b i _) ⟨⟨?_, ?_, m.log⟩, ?_,
    st.requested.evolve e, st.sends.evolve e, st.led⟩
  · simp [LeaderLog.State.observe, ConsensusModule.stop, m.term]
  · simp [LeaderLog.State.observe, ConsensusModule.stop, NodeState.abstract]
  · exact (st.votes.evolve e rfl).congr rfl rfl (fun h => by cases h) fun _ _ h => h

theorem Stands.leaderSendHeartbeats (st : Stands b i cm) (reached : Reached servers b)
    (apart : i ∉ cm.peerIds) : Stands b i cm.leaderSendHeartbeats := by
  unfold ConsensusModule.leaderSendHeartbeats
  split
  · exact st
  · next lead =>
    have leader := st.leader reached (not_not.mp lead)
    have sd := st.sends
    refine ⟨{ st.mirrors with }, st.votes.congr rfl rfl (fun h => h) fun _ _ h => h,
      st.requested, ⟨?_, ?_, ?_, ?_⟩, st.led⟩
    all_goals intro hb hm
    all_goals rcases List.mem_append.mp hm with hm | hm
    · exact sd.message hb hm
    · obtain ⟨_, _, rfl⟩ := List.mem_map.mp hm
      exact fun _ h => by cases h
    · exact sd.unsent hb hm
    · obtain ⟨_, _, rfl⟩ := List.mem_map.mp hm
      exact fun _ => rfl
    · exact sd.leader hb hm
    · obtain ⟨_, _, rfl⟩ := List.mem_map.mp hm
      exact leader
    · exact sd.peer hb hm
    · obtain ⟨_, mem, rfl⟩ := List.mem_map.mp hm
      exact fun h => apart (h ▸ mem)

theorem appendEntriesArgs_encodes (cm : ConsensusModule α) (saved ni : Int) (low : 0 ≤ ni)
    (high : ni ≤ cm.log.length) :
    Encodes (abstractLog cm.log) ni (cm.appendEntriesArgs saved ni) where
  inside := ⟨low, by rwa [abstractLog_length]⟩
  prevLogIndex := rfl
  prevLogTerm e he pos := by
    rw [abstractLog, List.getElem?_map] at he
    obtain ⟨x, hx, rfl⟩ := Option.mem_map.mp he
    change ((at? cm.log (ni - 1)).map (·.term)).getD (-1) = x.term
    rw [at?, if_pos pos, show cm.log[(ni - 1).toNat]? = some x from hx]
    rfl
  entries := abstractLog_drop cm.log ni.toNat

theorem Stands.heartbeatSend (st : Stands b i cm) (reached : Reached servers b) {k : Nat}
    {hb : Heartbeat α} (found : cm.heartbeats[k]? = some hb) (unsent : hb.args = none)
    {ni : Int} (low : 0 ≤ ni) (high : ni ≤ cm.log.length) :
    Answers servers b i (cm.updateHeartbeat k fun hb =>
      { hb with ni := ni, args := some (cm.appendEntriesArgs hb.savedCurrentTerm ni) }) := by
  have m := st.mirrors
  have mem := List.mem_of_getElem? found
  have step : Step (quorums servers) .pastLeader b (b.send i hb.savedCurrentTerm) :=
    .send b i _ (st.sends.leader hb mem)
  have e := reached.evolves (.single step)
  have sd := st.sends.evolve e
  refine .step reached step { Elsewhere.refl i b with } ⟨{ m with },
    (st.votes.evolve e rfl).congr rfl rfl (fun h => h) fun _ _ h => h, st.requested.evolve e,
    ⟨?_, ?_, ?_, ?_⟩, st.led⟩
  all_goals intro hb' hm
  all_goals rcases List.mem_or_eq_of_mem_modify hm with hm | ⟨x, hk, rfl⟩
  · exact sd.message hb' hm
  · obtain rfl := Option.some.inj (hk.symm.trans found)
    rintro _ ⟨⟩
    refine ⟨⟨i, x.savedCurrentTerm, b.log i, b.commit i⟩, rfl, Set.mem_insert _ _, rfl, rfl, ?_,
      fun reply hr => ?_⟩
    · rw [m.log]
      exact appendEntriesArgs_encodes cm _ ni low high
    · rw [sd.unsent x mem unsent] at hr
      cases hr
  · exact sd.unsent hb' hm
  · exact fun h => by cases h
  · exact sd.leader hb' hm
  · exact sd.leader x (List.mem_of_getElem? hk)
  · exact sd.peer hb' hm
  · exact sd.peer x (List.mem_of_getElem? hk)

theorem Stands.updateHeartbeat (st : Stands b i cm) {k : Nat} {g : Heartbeat α → Heartbeat α}
    (sends : Sends b i (cm.heartbeats.modify k g)) : Stands b i (cm.updateHeartbeat k g) :=
  ⟨{ st.mirrors with }, st.votes.congr rfl rfl (fun h => h) fun _ _ h => h, st.requested, sends,
    st.led⟩

/-- The reply reaches the goroutine. -/
theorem Sends.answer {hbs : List (Heartbeat α)} {k : Nat} {hb : Heartbeat α}
    {args : AppendEntriesArgs α} {m : Message Int α} {reply : AppendEntriesReply}
    (sd : Sends b i hbs) (found : hbs[k]? = some hb) (sent : hb.args = some args)
    (sender : m.sender = i) (carries : Carries b hb args m)
    (acked : reply.success = true →
      ⟨hb.peerId, m.term, m.log.length⟩ ∈ b.acks ∨ m.term < b.term m.sender) :
    Sends b i (hbs.modify k fun hb => { hb with reply := some reply }) := by
  constructor
  all_goals intro hb' hm
  all_goals rcases List.mem_or_eq_of_mem_modify hm with hm | ⟨x, hk, rfl⟩
  · exact sd.message hb' hm
  · obtain rfl := Option.some.inj (hk.symm.trans found)
    intro args' ha
    obtain rfl := Option.some.inj (sent.symm.trans ha)
    refine ⟨m, sender, { carries with acked := ?_ }⟩
    rintro _ ⟨⟩
    exact acked
  · exact sd.unsent hb' hm
  · obtain rfl := Option.some.inj (hk.symm.trans found)
    exact fun none => absurd (sent.symm.trans none) (by simp)
  · exact sd.leader hb' hm
  · exact sd.leader x (List.mem_of_getElem? hk)
  · exact sd.peer hb' hm
  · exact sd.peer x (List.mem_of_getElem? hk)

theorem Simulates.heartbeatServe (sim : Simulates s b) (reached : Reached s.servers b)
    {k : Nat} {now : Int} {hb : Heartbeat α} {args : AppendEntriesArgs α}
    (found : (s.node i).heartbeats[k]? = some hb) (sent : hb.args = some args) :
    Follows s.servers b ((s.set hb.peerId ((s.node hb.peerId).appendEntries args now).1).set i
      (((s.set hb.peerId ((s.node hb.peerId).appendEntries args now).1).node
        i).updateHeartbeat k fun hb' =>
          { hb' with reply := some ((s.node hb.peerId).appendEntries args now).2 })) := by
  have sd := (sim i).sends
  have mem := List.mem_of_getElem? found
  have other := sd.peer hb mem
  obtain ⟨m, rfl, carries⟩ := sd.message hb mem args sent
  have leader : b.leader m.term = some m.sender := carries.term ▸ sd.leader hb mem
  obtain ⟨b', steps, el, held, st, acked⟩ :=
    (sim hb.peerId).appendEntries reached carries leader other.symm now
  have e := reached.evolves steps
  have sim' := sim.set e el st
  have same : (s.set hb.peerId ((s.node hb.peerId).appendEntries args now).1).node m.sender =
      s.node m.sender := by
    rw [set_node, Function.update_of_ne other.symm]
  refine ⟨b', steps, held, sim'.setSame ((sim' m.sender).updateHeartbeat ?_)⟩
  rw [same]
  exact (sd.evolve e).answer found sent rfl (carries.evolve e) acked

theorem Stands.heartbeatReply (st : Stands b i cm) (reached : Reached servers b)
    {hb : Heartbeat α} {k : Nat} {reply : AppendEntriesReply} {now : Int}
    (later : hb.savedCurrentTerm < reply.term → cm.currentTerm < reply.term) :
    Answers servers b i (cm.heartbeatReply hb k reply now) := by
  rcases cm.heartbeatReply_cases hb k reply now with ⟨lt, eq⟩ | ⟨_, _, eq⟩ | ⟨_, _, eq⟩
  · rw [eq]
    obtain ⟨step, st'⟩ := st.later reached (later lt) now
    exact .step reached step (LeaderLog.elsewhere_observe b i _) st'
  · obtain ⟨_, commits, eq', decided⟩ := (cm.advance hb k).commitLoop_eq
    rw [eq, eq']
    -- commits are neither votes nor leaderships
    have old {ev : Event α} (h : ev ∈ commits ++ cm.hist) (other : ∀ c, ev ≠ .commit c) :
        ev ∈ cm.hist := by
      rcases List.mem_append.mp h with h | h
      · obtain ⟨c, rfl, _⟩ := decided ev h
        exact absurd rfl (other c)
      · exact h
    exact .same ⟨{ st.mirrors with },
      st.votes.congr rfl rfl (fun h => h) fun _ _ h => old h (by simp), st.requested, st.sends,
      fun t h => st.led t (old h (by simp))⟩
  · rw [eq]
    exact .same ⟨{ st.mirrors with }, st.votes.congr rfl rfl (fun h => h) fun _ _ h => h,
      st.requested, st.sends, st.led⟩

end Leaders

section Runs
variable {b b' : AbstractState α} {i : Int} {s s' : Network α} {n : Nat} {a : Action α}
  {h : List (Network α × Action α)}

theorem Simulates.step (sim : Simulates s b) (reached : Reached s.servers b) (p : Placed n s)
    (tally : Tally s) (server : a.node ∈ s.servers) (tr : Transition s a s')
    (later : s.RepliesLater a) (wins : s.WinsInItsTerm a) : Follows s.servers b s' := by
  cases tr with
  | tick i k now timeout cm ticks =>
      obtain ⟨_, _, rfl⟩ := ticks
      exact .same (sim.setSame { sim i with
        mirrors := { (sim i).mirrors with }
        votes := (sim i).votes.congr rfl rfl (fun h => h) fun _ _ h => h })
  | startElection i k now timeout timers running =>
      have pos : 0 ≤ i := p.nonneg server
      have st : Stands b i { s.node i with timers := timers } := { sim i with
        mirrors := { (sim i).mirrors with }
        votes := (sim i).votes.congr rfl rfl (fun h => h) fun _ _ h => h }
      exact sim.follows reached (st.startElection reached (p.id i) (by omega) running now)
  | voteSend i e k el call found _ =>
      obtain ⟨he, _⟩ := ConsensusModule.voteCall?_eq_some.mp found
      exact sim.follows reached ((sim i).voteSend reached found
        (tally i el (List.mem_of_getElem? he)).own)
  | voteServe i e k now el call args found sent _ peer =>
      exact sim.voteServe reached p tally server found sent peer
  | voteReturn i e k now el call reply found answered waiting =>
      exact sim.voteReturn reached p tally server found answered waiting later wins
  | voteFail i e k el call _ =>
      exact .same (sim.setSame ((sim i).updateVoteCall e k fun _ => rfl))
  | leaderSendHeartbeats i =>
      exact .same (sim.setSame ((sim i).leaderSendHeartbeats reached
        fun mem => (p.mem_peerIds.mp mem).2 rfl))
  | heartbeatSend i k hb found unsent low high =>
      exact sim.follows reached ((sim i).heartbeatSend reached found unsent low high)
  | heartbeatServe i k now hb args found sent _ _ => exact sim.heartbeatServe reached found sent
  | heartbeatReturn i k now hb args reply found _ answered _ =>
      have sends := (sim i).sends.finish (k := k) fun _ => ⟨some reply, rfl⟩
      exact sim.follows reached (((sim i).updateHeartbeat sends).heartbeatReply reached
        (later hb found reply answered))
  | heartbeatFail i k hb _ =>
      have sends := (sim i).sends.finish (k := k) fun hb => ⟨hb.received, rfl⟩
      exact .same (sim.setSame ((sim i).updateHeartbeat sends))
  | submit i command => exact sim.follows reached ((sim i).submit reached command)
  | stop i => exact sim.follows reached ((sim i).stop reached)

/-- A module has held in the term what it has acknowledged. -/
def Witnessed (b : AbstractState α) (h : List (Network α × Action α)) (s : Network α) : Prop :=
  ∀ a ∈ b.acks, ∃ s₀ ∈ s :: h.map (·.1), (s₀.node a.node).currentTerm = a.term ∧
    (b.led a.term).take a.count <+: abstractLog (s₀.node a.node).log

theorem Witnessed.step (w : Witnessed b h s) {servers : List Int} (reached : Reached servers b)
    (e : Evolves b b') (held : ∀ a ∈ b'.acks, a ∈ b.acks ∨ Held b' a) (sim : Simulates s' b') :
    Witnessed b' ((s, a) :: h) s' := by
  intro k hk
  rcases held k hk with old | ⟨term, log⟩
  · obtain ⟨s₀, mem, term, log⟩ := w k old
    refine ⟨s₀, List.mem_cons_of_mem _ mem, term, ?_⟩
    -- the leader's log has only grown past what is acknowledged
    have retained := reached.sound.retained
    obtain ⟨l, leader⟩ := retained.ack_leader k old
    obtain ⟨rest, grown⟩ := e.led _ l leader
    rwa [← grown, List.take_append_of_le_length (retained.ack_count k old)]
  · have m := (sim k.node).mirrors
    exact ⟨s', List.mem_cons_self, m.term.symm.trans term, m.log ▸ log⟩

/-- A run, with the abstract state it leads to. -/
structure Simulated (n : Nat) (h : List (Network α × Action α)) (s : Network α)
    (b : AbstractState α) : Prop where
  run : Run Network.step (startUp α n) h s
  reached : Reached s.servers b
  simulates : Simulates s b
  witnessed : Witnessed b h s

theorem Simulated.init (n : Nat) : Simulated n [] (startUp α n) .init where
  run := .start
  reached := .refl
  simulates := .startUp n
  witnessed _ hk := absurd hk (Set.notMem_empty _)

theorem Simulated.step (r : Simulated n h s b) (later : s.RepliesLater a)
    (wins : s.WinsInItsTerm a) (hs : s.step a = some s') :
    ∃ b', Evolves b b' ∧ Simulated n ((s, a) :: h) s' b' := by
  obtain ⟨server, tr⟩ := Transition.of_step hs
  have p := Placed.run r.run
  obtain ⟨b', steps, held, sim⟩ :=
    r.simulates.step r.reached p (.run r.run) server tr later wins
  have e := r.reached.evolves steps
  have servers : s'.servers = s.servers := (p.step tr).servers.trans p.servers.symm
  exact ⟨b', e, .next r.run hs, servers ▸ r.reached.trans steps, sim,
    r.witnessed.step r.reached e held sim⟩

theorem simulated (run : Run Network.step (startUp α n) h s) (later : Meets RepliesLater h)
    (wins : Meets WinsInItsTerm h) : ∃ b, Simulated n h s b := by
  have keeps : Meets (fun s a => s.RepliesLater a ∧ s.WinsInItsTerm a) h :=
    fun p hp => ⟨later p hp, wins p hp⟩
  refine run.invariant (I := fun h s => ∃ b, Simulated n h s b) keeps ⟨_, .init n⟩ ?_
  rintro h s a s' ⟨b, r⟩ ⟨later, wins⟩ hs
  obtain ⟨b', _, r'⟩ := r.step later wins hs
  exact ⟨b', r'⟩

end Runs
end Prototype
end OhMyDb
