import OhMyDb.Prototype.Transition
import OhMyDb.Lib.Quorum

/-!
`votesReceived` counts votes. Each call of `startElection` has a counter of its own,
so unlike the terms, which a reply can take back, the counting holds in every run.
-/

namespace OhMyDb
namespace Prototype
open Execution
open Function (update)
variable {α : Type}

namespace ConsensusModule
variable {cm cm' cm'' : ConsensusModule α}

/-- Nothing happens to the elections, and nothing is forgotten. -/
structure Quiet (cm cm' : ConsensusModule α) : Prop where
  id : cm'.id = cm.id
  peerIds : cm'.peerIds = cm.peerIds
  elections : cm'.elections = cm.elections
  hist : cm.hist ⊆ cm'.hist

theorem Quiet.refl (cm : ConsensusModule α) : Quiet cm cm :=
  ⟨rfl, rfl, rfl, fun _ h => h⟩

theorem Quiet.trans (q : Quiet cm cm') (q' : Quiet cm' cm'') : Quiet cm cm'' :=
  ⟨q'.id.trans q.id, q'.peerIds.trans q.peerIds, q'.elections.trans q.elections,
    fun _ h => q'.hist (q.hist h)⟩

theorem quiet_observeTerm (cm : ConsensusModule α) (term now : Int) :
    Quiet cm (cm.observeTerm term now) := by
  unfold observeTerm
  split
  · exact ⟨rfl, rfl, rfl, fun _ h => h⟩
  · exact .refl cm

theorem quiet_requestVote (cm : ConsensusModule α) (args : RequestVoteArgs) (now : Int) :
    Quiet cm (cm.requestVote args now).1 := by
  unfold requestVote
  split
  · exact .refl cm
  · refine (cm.quiet_observeTerm args.term now).trans ?_
    dsimp only
    split
    · exact ⟨rfl, rfl, rfl, fun _ h => List.mem_cons_of_mem _ h⟩
    · exact .refl _

theorem quiet_observeLeader (cm : ConsensusModule α) (term now : Int) :
    Quiet cm (cm.observeLeader term now) := by
  unfold observeLeader
  split
  · exact ⟨rfl, rfl, rfl, fun _ h => h⟩
  · exact ⟨rfl, rfl, rfl, fun _ h => h⟩

theorem quiet_appendEntries (cm : ConsensusModule α) (args : AppendEntriesArgs α) (now : Int) :
    Quiet cm (cm.appendEntries args now).1 := by
  unfold appendEntries
  split
  · exact .refl cm
  · refine (cm.quiet_observeTerm args.term now).trans ?_
    dsimp only
    split
    · refine (quiet_observeLeader _ args.term now).trans ?_
      split
      · exact ⟨rfl, rfl, rfl, fun _ h => h⟩
      · exact .refl _
    · exact .refl _

theorem quiet_heartbeatReply (cm : ConsensusModule α) (hb : Heartbeat α) (n : Nat)
    (reply : AppendEntriesReply) (now : Int) : Quiet cm (cm.heartbeatReply hb n reply now) := by
  rcases cm.heartbeatReply_cases hb n reply now with ⟨_, eq⟩ | ⟨_, _, eq⟩ | ⟨_, _, eq⟩
  · rw [eq]
    exact ⟨rfl, rfl, rfl, fun _ h => h⟩
  · obtain ⟨_, commits, eq', _⟩ := (cm.advance hb n).commitLoop_eq
    rw [eq, eq']
    exact ⟨rfl, rfl, rfl, fun _ h => List.mem_append_right _ h⟩
  · rw [eq]
    exact ⟨rfl, rfl, rfl, fun _ h => h⟩

theorem quiet_leaderSendHeartbeats (cm : ConsensusModule α) : Quiet cm cm.leaderSendHeartbeats := by
  unfold leaderSendHeartbeats
  split
  · exact .refl cm
  · exact ⟨rfl, rfl, rfl, fun _ h => h⟩

theorem quiet_submit (cm : ConsensusModule α) (command : α) : Quiet cm (cm.submit command) := by
  unfold submit
  split
  · exact ⟨rfl, rfl, rfl, fun _ h => h⟩
  · exact .refl cm

/-- A reply that says the vote is granted comes from a vote. -/
theorem requestVote_granted {args : RequestVoteArgs}
    {now : Int} (h : (cm.requestVote args now).2.voteGranted = true) :
    (cm.requestVote args now).2.term = args.term ∧
      .voted args.candidateId args.term ∈ (cm.requestVote args now).1.hist := by
  unfold requestVote at h ⊢
  split at h
  · cases h
  · next alive =>
    rw [if_neg alive]
    dsimp only at h ⊢
    split at h
    · next grants =>
      rw [if_pos grants]
      exact ⟨grants.1, List.mem_cons.mpr (Or.inl (by rw [grants.1]))⟩
    · cases h

theorem countVote_elections (cm : ConsensusModule α) (e : Nat) (el : Election) :
    (cm.countVote e el).elections = cm.elections.modify e fun el =>
      { el with votesReceived := el.votesReceived + 1 } := by
  unfold countVote
  dsimp only
  split <;> rfl

/-- What a reply changes outside the elections. -/
theorem voteReply_frame (cm : ConsensusModule α) (e : Nat) (el : Election)
    (reply : RequestVoteReply) (now : Int) : (cm.voteReply e el reply now).id = cm.id ∧
      (cm.voteReply e el reply now).peerIds = cm.peerIds ∧
      cm.hist ⊆ (cm.voteReply e el reply now).hist := by
  rcases cm.voteReply_cases e el reply now with eq | ⟨_, _, eq⟩ | ⟨_, _, eq⟩
  · rw [eq]
    exact ⟨rfl, rfl, fun _ h => h⟩
  · rw [eq]
    exact ⟨rfl, rfl, fun _ h => h⟩
  · rw [eq, countVote]
    split
    · exact ⟨rfl, rfl, fun _ h => List.mem_cons_of_mem _ h⟩
    · exact ⟨rfl, rfl, fun _ h => h⟩

end ConsensusModule

namespace Network
variable {s s' : Network α} {a : Action α} {n : Nat}

/-- The modules are where `startUp` has put them. -/
structure Placed (n : Nat) (s : Network α) : Prop where
  servers : s.servers = (startUp α n).servers
  id : ∀ i, (s.node i).id = i
  peerIds : ∀ i, (s.node i).peerIds = s.servers.filter (· ≠ i)

theorem Placed.startUp (n : Nat) : Placed n (startUp α n) :=
  ⟨rfl, fun _ => rfl, fun _ => rfl⟩

theorem Placed.set {i : Int} {cm : ConsensusModule α} (p : Placed n s) (id : cm.id = (s.node i).id)
    (peerIds : cm.peerIds = (s.node i).peerIds) : Placed n (s.set i cm) := by
  refine ⟨p.servers, fun j => ?_, fun j => ?_⟩ <;> by_cases e : j = i
  · subst e
    simpa [id] using p.id j
  · simpa [e] using p.id j
  · subst e
    simpa [peerIds] using p.peerIds j
  · simpa [e] using p.peerIds j

theorem Placed.quiet {i : Int} {cm : ConsensusModule α} (p : Placed n s)
    (q : (s.node i).Quiet cm) : Placed n (s.set i cm) :=
  p.set q.id q.peerIds

theorem Placed.step (p : Placed n s) (tr : Transition s a s') : Placed n s' := by
  cases tr with
  | tick i k now timeout cm ticks =>
      obtain ⟨_, _, rfl⟩ := ticks
      exact p.set rfl rfl
  | startElection i k now timeout timers _ => exact p.set rfl rfl
  | voteSend i e k el call _ _ => exact p.set rfl rfl
  | voteServe i e k now el call args _ _ _ _ =>
      exact (p.quiet ((s.node call.peerId).quiet_requestVote args now)).set rfl rfl
  | voteReturn i e k now el call reply _ _ _ =>
      obtain ⟨id, peerIds, _⟩ := (s.node i).voteReply_frame e el reply now
      exact p.set id peerIds
  | voteFail i e k el call _ => exact p.set rfl rfl
  | leaderSendHeartbeats i => exact p.quiet (s.node i).quiet_leaderSendHeartbeats
  | heartbeatSend i k hb _ _ _ _ => exact p.set rfl rfl
  | heartbeatServe i k now hb args _ _ _ _ =>
      exact (p.quiet ((s.node hb.peerId).quiet_appendEntries args now)).set rfl rfl
  | heartbeatReturn i k now hb args reply _ _ _ _ =>
      have q := ((s.node i).updateHeartbeat k (Heartbeat.receive reply)).quiet_heartbeatReply hb
        args.entries.length reply now
      exact p.set q.id q.peerIds
  | heartbeatFail i k hb _ => exact p.set rfl rfl
  | submit i command => exact p.quiet ((s.node i).quiet_submit command)
  | stop i => exact p.set rfl rfl

theorem Placed.run {h : List (Network α × Action α)}
    (run : Run Network.step (Network.startUp α n) h s) : Placed n s :=
  run.always (.startUp n) fun _ _ _ p hs => p.step (Transition.of_step hs).2

theorem Placed.nodup (p : Placed n s) : s.servers.Nodup := by
  rw [p.servers]
  exact List.nodup_range.map fun _ _ => Int.ofNat.inj

theorem Placed.nonneg (p : Placed n s) {i : Int} (server : i ∈ s.servers) : 0 ≤ i := by
  rw [p.servers] at server
  obtain ⟨_, _, rfl⟩ := List.mem_map.mp server
  exact Int.natCast_nonneg _

/-- A module and its peers are the whole cluster. -/
theorem Placed.size (p : Placed n s) {i : Int} (server : i ∈ s.servers) :
    (s.node i).peerIds.length + 1 = s.servers.length := by
  have erased : s.servers.filter (· ≠ i) = s.servers.erase i := by
    rw [p.nodup.erase_eq_filter]
    exact List.filter_congr fun j _ => by by_cases e : j = i <;> simp [e]
  rw [p.peerIds, erased, List.length_erase_of_mem server]
  have := List.length_pos_of_mem server
  omega

theorem Placed.mem_peerIds (p : Placed n s) {i j : Int} :
    j ∈ (s.node i).peerIds ↔ j ∈ s.servers ∧ j ≠ i := by
  rw [p.peerIds, List.mem_filter, decide_eq_true_iff]

end Network

/-- The votes that a goroutine has counted. -/
def VoteCall.granted (term : Int) (call : VoteCall) : Bool :=
  call.returned && call.reply == some ⟨term, true⟩

namespace Network
variable {s s' : Network α} {a : Action α} {n : Nat} {i : Int} {el : Election}

/-- The counter of one election of module `i`. -/
structure Fair (s : Network α) (i : Int) (el : Election) : Prop where
  own : .voted i el.savedCurrentTerm ∈ (s.node i).hist
  peers : el.calls.map (·.peerId) = s.servers.filter (· ≠ i)
  sent : ∀ call ∈ el.calls, ∀ args ∈ call.args,
    args.candidateId = i ∧ args.term = el.savedCurrentTerm
  granted : ∀ call ∈ el.calls, ∀ reply ∈ call.reply, reply.voteGranted = true →
    .voted i reply.term ∈ (s.node call.peerId).hist
  votes : el.votesReceived ≤ 1 + el.calls.countP (VoteCall.granted el.savedCurrentTerm)

def Tally (s : Network α) : Prop :=
  ∀ i, ∀ el ∈ (s.node i).elections, Fair s i el

theorem Fair.mono (f : Fair s i el) (servers : s'.servers = s.servers)
    (hist : ∀ j, (s.node j).hist ⊆ (s'.node j).hist) : Fair s' i el where
  own := hist i f.own
  peers := servers ▸ f.peers
  sent := f.sent
  granted call hc reply hr g := hist _ (f.granted call hc reply hr g)
  votes := f.votes

/-- A goroutine moves on, and may be counted. -/
theorem Fair.modify {k : Nat} {call : VoteCall} {g : VoteCall → VoteCall} {votes : Int}
    (f : Fair s i el) (hc : el.calls[k]? = some call) (peer : ∀ c, (g c).peerId = c.peerId)
    (sent : ∀ args ∈ (g call).args, args.candidateId = i ∧ args.term = el.savedCurrentTerm)
    (granted : ∀ reply ∈ (g call).reply, reply.voteGranted = true →
      .voted i reply.term ∈ (s.node call.peerId).hist)
    (count : votes ≤
      1 + (el.calls.modify k g).countP (VoteCall.granted el.savedCurrentTerm)) :
    Fair s i { el with votesReceived := votes, calls := el.calls.modify k g } where
  own := f.own
  peers := (List.map_modify_of_eq peer).trans f.peers
  sent c hm args ha := by
    rcases List.mem_or_eq_of_mem_modify hm with hm | ⟨c, hk, rfl⟩
    · exact f.sent c hm args ha
    · obtain rfl := Option.some.inj (hk.symm.trans hc)
      exact sent args ha
  granted c hm reply hr given := by
    rcases List.mem_or_eq_of_mem_modify hm with hm | ⟨c, hk, rfl⟩
    · exact f.granted c hm reply hr given
    · obtain rfl := Option.some.inj (hk.symm.trans hc)
      rw [peer]
      exact granted reply hr given
  votes := count

/-- A goroutine that is not counted. -/
theorem Fair.pass {k : Nat} {call : VoteCall} {g : VoteCall → VoteCall} (f : Fair s i el)
    (hc : el.calls[k]? = some call) (peer : ∀ c, (g c).peerId = c.peerId)
    (sent : ∀ args ∈ (g call).args, args.candidateId = i ∧ args.term = el.savedCurrentTerm)
    (granted : ∀ reply ∈ (g call).reply, reply.voteGranted = true →
      .voted i reply.term ∈ (s.node call.peerId).hist)
    (still : call.granted el.savedCurrentTerm = true →
      (g call).granted el.savedCurrentTerm = true) :
    Fair s i { el with calls := el.calls.modify k g } := by
  refine f.modify hc peer sent granted ?_
  have := f.votes
  have := List.countP_le_countP_modify (p := VoteCall.granted el.savedCurrentTerm) hc still
  omega

theorem Fair.finish {k : Nat} {call : VoteCall} (f : Fair s i el)
    (hc : el.calls[k]? = some call) :
    Fair s i { el with calls := el.calls.modify k fun call => { call with returned := true } } := by
  have mem := List.mem_of_getElem? hc
  refine f.pass hc (fun _ => rfl) (f.sent call mem) (f.granted call mem) fun still => ?_
  rw [VoteCall.granted, Bool.and_eq_true] at still
  rw [VoteCall.granted, Bool.and_eq_true]
  exact ⟨rfl, still.2⟩

/-- The counter after the vote has been counted. -/
theorem Fair.count {k : Nat} {call : VoteCall} (f : Fair s i el) (hc : el.calls[k]? = some call)
    (reply : call.reply = some ⟨el.savedCurrentTerm, true⟩) (waiting : call.returned = false) :
    Fair s i { el with
      votesReceived := el.votesReceived + 1
      calls := el.calls.modify k fun call => { call with returned := true } } := by
  have mem := List.mem_of_getElem? hc
  refine f.modify hc (fun _ => rfl) (f.sent call mem) (f.granted call mem) ?_
  have := f.votes
  have := List.countP_modify_succ (p := VoteCall.granted el.savedCurrentTerm)
    (f := fun call => { call with returned := true }) hc (by simp [VoteCall.granted, waiting])
    (by simp [VoteCall.granted, reply])
  omega

/-- As many servers have voted as the counter says. -/
theorem Fair.voters (f : Fair s i el) (p : Placed n s) (server : i ∈ s.servers) :
    ∃ A ⊆ s.servers.toFinset, el.votesReceived ≤ A.card ∧
      ∀ v ∈ A, .voted i el.savedCurrentTerm ∈ (s.node v).hist := by
  let counted := (el.calls.filter (VoteCall.granted el.savedCurrentTerm)).map (·.peerId)
  have sub : counted.Sublist (s.servers.filter (· ≠ i)) :=
    f.peers ▸ List.filter_sublist.map _
  have peer {v : Int} (hv : v ∈ counted) : v ∈ s.servers ∧ v ≠ i := by
    have := List.mem_filter.mp (sub.subset hv)
    exact ⟨this.1, of_decide_eq_true this.2⟩
  have nodup : (i :: counted).Nodup :=
    List.nodup_cons.mpr ⟨fun h => (peer h).2 rfl, sub.nodup (p.nodup.filter _)⟩
  refine ⟨(i :: counted).toFinset, fun v hv => ?_, ?_, fun v hv => ?_⟩
  · rcases List.mem_cons.mp (List.mem_toFinset.mp hv) with rfl | hv
    · exact List.mem_toFinset.mpr server
    · exact List.mem_toFinset.mpr (peer hv).1
  · rw [List.toFinset_card_of_nodup nodup, List.length_cons, List.length_map,
      ← List.countP_eq_length_filter]
    have := f.votes
    omega
  · rcases List.mem_cons.mp (List.mem_toFinset.mp hv) with rfl | hv
    · exact f.own
    · obtain ⟨call, hc, rfl⟩ := List.mem_map.mp hv
      obtain ⟨mem, granted⟩ := List.mem_filter.mp hc
      rw [VoteCall.granted, Bool.and_eq_true, beq_iff_eq] at granted
      exact f.granted call mem _ granted.2 rfl

/-- Only module `i` changes. -/
theorem hist_subset_set {cm : ConsensusModule α} (hist : (s.node i).hist ⊆ cm.hist) (j : Int) :
    (s.node j).hist ⊆ ((s.set i cm).node j).hist := by
  by_cases e : j = i
  · subst e
    simpa using hist
  · simp [e]

theorem Tally.set {cm : ConsensusModule α} (t : Tally s) (hist : (s.node i).hist ⊆ cm.hist)
    (fair : ∀ el ∈ cm.elections, el ∈ (s.node i).elections ∨ Fair (s.set i cm) i el) :
    Tally (s.set i cm) := by
  intro j el hel
  by_cases e : j = i
  · subst e
    rw [set_node, Function.update_self] at hel
    rcases fair el hel with old | new
    · exact (t j el old).mono rfl (hist_subset_set hist)
    · exact new
  · rw [set_node, Function.update_of_ne e] at hel
    exact (t j el hel).mono rfl (hist_subset_set hist)

theorem Tally.quiet {cm : ConsensusModule α} (t : Tally s) (q : (s.node i).Quiet cm) :
    Tally (s.set i cm) :=
  t.set q.hist fun _ hel => Or.inl (q.elections ▸ hel)

/-- One election of the module changes. -/
theorem Tally.modify {cm : ConsensusModule α} {e : Nat} {g : Election → Election} (t : Tally s)
    (hist : (s.node i).hist ⊆ cm.hist) (he : (s.node i).elections[e]? = some el)
    (elections : cm.elections = (s.node i).elections.modify e g) (fair : Fair s i (g el)) :
    Tally (s.set i cm) := by
  refine t.set hist fun el' hel => ?_
  rw [elections] at hel
  rcases List.mem_or_eq_of_mem_modify hel with old | ⟨el', hk, rfl⟩
  · exact Or.inl old
  · obtain rfl := Option.some.inj (hk.symm.trans he)
    exact Or.inr (fair.mono rfl (hist_subset_set hist))

theorem Tally.step (t : Tally s) (p : Placed n s) (tr : Transition s a s') : Tally s' := by
  cases tr with
  | tick i k now timeout cm ticks =>
      obtain ⟨_, _, rfl⟩ := ticks
      exact t.quiet ⟨rfl, rfl, rfl, fun _ h => h⟩
  | startElection i k now timeout timers _ =>
      refine t.set (fun _ h => List.mem_cons_of_mem _ h) fun el hel => ?_
      rcases List.mem_append.mp hel with hel | hel
      · exact Or.inl hel
      · obtain rfl := List.mem_singleton.mp hel
        refine Or.inr ⟨?_, ?_, ?_, ?_, ?_⟩
        · have own := p.id i
          simp [ConsensusModule.startElection, own]
        · simpa [Function.comp_def] using p.peerIds i
        · intro call hc args ha
          obtain ⟨_, _, rfl⟩ := List.mem_map.mp hc
          cases ha
        · intro call hc reply hr
          obtain ⟨_, _, rfl⟩ := List.mem_map.mp hc
          cases hr
        · exact Int.le_add_of_nonneg_right (Int.natCast_nonneg _)
  | voteSend i e k el call found unsent =>
      obtain ⟨he, hc⟩ := ConsensusModule.voteCall?_eq_some.mp found
      have fair := t i el (List.mem_of_getElem? he)
      refine t.modify (fun _ h => h) he rfl (fair.pass hc (fun _ => rfl) ?_
        (fair.granted call (List.mem_of_getElem? hc)) fun h => h)
      rintro _ ⟨⟩
      exact ⟨p.id i, rfl⟩
  | voteServe i e k now el call args found sent unserved peer =>
      obtain ⟨he, hc⟩ := ConsensusModule.voteCall?_eq_some.mp found
      have mem := List.mem_of_getElem? hc
      have q := (s.node call.peerId).quiet_requestVote args now
      have fair := t i el (List.mem_of_getElem? he)
      obtain ⟨candidate, _⟩ := fair.sent call mem args sent
      have other : i ≠ call.peerId := by
        have := (fair.peers ▸ List.mem_map_of_mem mem : call.peerId ∈ s.servers.filter (· ≠ i))
        exact fun h => (of_decide_eq_true (List.mem_filter.mp this).2) h.symm
      have same : (s.set call.peerId ((s.node call.peerId).requestVote args now).1).node i =
          s.node i := by
        rw [set_node, Function.update_of_ne other]
      have fair' : Fair (s.set call.peerId ((s.node call.peerId).requestVote args now).1) i el :=
        fair.mono rfl (hist_subset_set q.hist)
      refine (t.quiet q).modify (fun _ h => h) (same ▸ he) rfl
        (fair'.pass hc (fun _ => rfl) (fair.sent call mem) ?_ ?_)
      · rintro _ ⟨⟩ given
        obtain ⟨term, voted⟩ := ConsensusModule.requestVote_granted given
        rw [set_node, Function.update_self, term, ← candidate]
        exact voted
      · intro still
        simp [VoteCall.granted, unserved] at still
  | voteReturn i e k now el call reply found answered waiting =>
      obtain ⟨he, hc⟩ := ConsensusModule.voteCall?_eq_some.mp found
      have fair := t i el (List.mem_of_getElem? he)
      rcases (s.node i).voteReply_cases e el reply now with
        eq | ⟨_, _, eq⟩ | ⟨_, rfl, eq⟩
      · rw [eq]
        exact t.modify (fun _ h => h) he rfl (fair.finish hc)
      · rw [eq]
        exact t.modify (fun _ h => h) he rfl (fair.finish hc)
      · have hist := ((s.node i).voteReply_frame e el ⟨el.savedCurrentTerm, true⟩ now).2.2
        rw [eq] at hist ⊢
        have elections : (((s.node i).countVote e el).updateVoteCall e k fun call =>
            { call with returned := true }).elections = (s.node i).elections.modify e fun el =>
              ⟨el.savedCurrentTerm, el.votesReceived + 1,
                el.calls.modify k fun call => { call with returned := true }⟩ := by
          change List.modify ((s.node i).countVote e el).elections e _ = _
          rw [ConsensusModule.countVote_elections]
          exact List.modify_modify_eq _ _ _ _
        exact t.modify hist he elections (fair.count hc answered waiting)
  | voteFail i e k el call found =>
      obtain ⟨he, hc⟩ := ConsensusModule.voteCall?_eq_some.mp found
      exact t.modify (fun _ h => h) he rfl
        ((t i el (List.mem_of_getElem? he)).finish hc)
  | leaderSendHeartbeats i => exact t.quiet (s.node i).quiet_leaderSendHeartbeats
  | heartbeatSend i k hb _ _ _ _ => exact t.quiet ⟨rfl, rfl, rfl, fun _ h => h⟩
  | heartbeatServe i k now hb args _ _ _ _ =>
      exact (t.quiet ((s.node hb.peerId).quiet_appendEntries args now)).quiet
        ⟨rfl, rfl, rfl, fun _ h => h⟩
  | heartbeatReturn i k now hb args reply _ _ _ _ =>
      have q := ((s.node i).updateHeartbeat k (Heartbeat.receive reply)).quiet_heartbeatReply hb
        args.entries.length reply now
      exact t.quiet ⟨q.id, q.peerIds, q.elections, q.hist⟩
  | heartbeatFail i k hb _ => exact t.quiet ⟨rfl, rfl, rfl, fun _ h => h⟩
  | submit i command => exact t.quiet ((s.node i).quiet_submit command)
  | stop i => exact t.quiet ⟨rfl, rfl, rfl, fun _ h => h⟩

theorem Tally.run {h : List (Network α × Action α)}
    (run : Run Network.step (Network.startUp α n) h s) : Tally s := by
  refine (run.always (I := fun s => Placed n s ∧ Tally s) ⟨.startUp n, fun _ _ h => ?_⟩
    fun _ _ _ i hs => ?_).2
  · exact absurd h List.not_mem_nil
  · have tr := (Transition.of_step hs).2
    exact ⟨i.1.step tr, i.2.step i.1 tr⟩

end Network
end Prototype
end OhMyDb
