import OhMyDb.Prototype.Voting

/-!
What `matchIndex` is worth. The map is never reset, and a missing key reads as 0, so it
speaks for a peer only after a reply of the present leadership has been written to it.
-/

namespace OhMyDb
namespace Prototype
open Execution
variable {α : Type}

namespace ConsensusModule

/-- The peer has replied successfully in this leadership. -/
def Replied (cm : ConsensusModule α) (p : Int) : Prop :=
  ∃ hb ∈ cm.heartbeats, hb.peerId = p ∧ hb.savedCurrentTerm = cm.currentTerm ∧
    hb.received = some ⟨cm.currentTerm, true⟩

instance (cm : ConsensusModule α) (p : Int) : Decidable (cm.Replied p) :=
  inferInstanceAs (Decidable (∃ hb ∈ cm.heartbeats, _))

end ConsensusModule

namespace Network

/-- A leader takes successful replies of its own term only. -/
def SuccessesOfThisTerm (s : Network α) : Action α → Prop
  | .heartbeatReturn i k _ => ∀ hb ∈ (s.node i).heartbeats[k]?, ∀ reply ∈ hb.reply,
      (s.node i).state = .leader → reply = ⟨hb.savedCurrentTerm, true⟩ →
      (s.node i).currentTerm = hb.savedCurrentTerm
  | _ => True

/-- The peers that are counted for an entry of the present term have replied
successfully in this leadership, the sender of the reply at hand included. -/
def CountsReplies (s : Network α) : Action α → Prop
  | .heartbeatReturn i k _ => ∀ hb ∈ (s.node i).heartbeats[k]?, ∀ reply ∈ hb.reply,
      (s.node i).state = .leader → reply = ⟨hb.savedCurrentTerm, true⟩ →
      ∀ j ∈ List.range (s.node i).log.length, (s.node i).commitIndex < j →
        (at? (s.node i).log j).map (·.term) = some (s.node i).currentTerm →
        ∀ p ∈ (s.node i).counted j, p = hb.peerId ∨ (s.node i).Replied p
  | _ => True

instance (s : Network α) (a : Action α) : Decidable (s.SuccessesOfThisTerm a) :=
  match a with
  | .heartbeatReturn _ _ _ => inferInstanceAs (Decidable (∀ _, _ → _))
  | .timerStep _ _ _ _ | .voteSend _ _ _ | .voteServe _ _ _ _ | .voteReturn _ _ _ _
  | .voteFail _ _ _ | .leaderSendHeartbeats _ | .heartbeatSend _ _ | .heartbeatServe _ _ _
  | .heartbeatFail _ _ | .submit _ _ | .stop _ => inferInstanceAs (Decidable True)

instance (s : Network α) (a : Action α) : Decidable (s.CountsReplies a) :=
  match a with
  | .heartbeatReturn _ _ _ => inferInstanceAs (Decidable (∀ _, _ → _))
  | .timerStep _ _ _ _ | .voteSend _ _ _ | .voteServe _ _ _ _ | .voteReturn _ _ _ _
  | .voteFail _ _ _ | .leaderSendHeartbeats _ | .heartbeatSend _ _ | .heartbeatServe _ _ _
  | .heartbeatFail _ _ | .submit _ _ | .stop _ => inferInstanceAs (Decidable True)

end Network

/-- A goroutine whose success the module has written to `matchIndex`. -/
structure Heartbeat.Matched (cm : ConsensusModule α) (p : Int) (hb : Heartbeat α)
    (args : AppendEntriesArgs α) : Prop where
  peer : hb.peerId = p
  saved : hb.savedCurrentTerm = cm.currentTerm
  sent : hb.args = some args
  reply : hb.reply = some ⟨cm.currentTerm, true⟩
  received : hb.received = some ⟨cm.currentTerm, true⟩
  matchIndex : get cm.matchIndex p = hb.ni + args.entries.length - 1

namespace ConsensusModule
variable {cm cm' cm'' : ConsensusModule α} {k : Nat} {hb : Heartbeat α}

/-- What `matchIndex` says about the peers that have replied. -/
structure Tracks (cm : ConsensusModule α) : Prop where
  saved : ∀ hb ∈ cm.heartbeats, hb.savedCurrentTerm ≤ cm.currentTerm
  candidate : cm.state = .candidate → ∀ hb ∈ cm.heartbeats, hb.savedCurrentTerm < cm.currentTerm
  matched : cm.state = .leader → ∀ p, cm.Replied p →
    ∃ hb ∈ cm.heartbeats, ∃ args, hb.Matched cm p args

/-- A module that goes on as before or withdraws. -/
structure Settles (cm cm' : ConsensusModule α) : Prop where
  heartbeats : cm'.heartbeats = cm.heartbeats
  matchIndex : cm'.matchIndex = cm.matchIndex
  state : (cm'.state = cm.state ∧ cm'.currentTerm = cm.currentTerm) ∨
    (cm'.state ≠ .candidate ∧ cm'.state ≠ .leader ∧ cm.currentTerm ≤ cm'.currentTerm)

theorem Settles.refl (cm : ConsensusModule α) : Settles cm cm :=
  ⟨rfl, rfl, Or.inl ⟨rfl, rfl⟩⟩

theorem Settles.trans (h : Settles cm cm') (h' : Settles cm' cm'') : Settles cm cm'' where
  heartbeats := h'.heartbeats.trans h.heartbeats
  matchIndex := h'.matchIndex.trans h.matchIndex
  state := by
    rcases h'.state with ⟨state', term'⟩ | ⟨nc, nl, le'⟩
    · rw [state', term']
      exact h.state
    · refine Or.inr ⟨nc, nl, ?_⟩
      rcases h.state with ⟨_, term⟩ | ⟨_, _, le⟩
      · exact term ▸ le'
      · exact le.trans le'

theorem Tracks.settles (t : Tracks cm) (h : Settles cm cm') : Tracks cm' := by
  rcases h.state with ⟨state, term⟩ | ⟨nc, nl, le⟩
  · constructor
    case saved =>
      rw [h.heartbeats, term]
      exact t.saved
    case candidate =>
      rw [h.heartbeats, state, term]
      exact t.candidate
    case matched =>
      intro lead p replied
      have before : cm.Replied p := by
        unfold Replied at replied ⊢
        rwa [h.heartbeats, term] at replied
      obtain ⟨hb, mem, args, m⟩ := t.matched (state ▸ lead) p before
      refine ⟨hb, h.heartbeats ▸ mem, args, m.peer, m.saved.trans term.symm, m.sent, ?_, ?_, ?_⟩
      · exact term ▸ m.reply
      · exact term ▸ m.received
      · exact h.matchIndex ▸ m.matchIndex
  · exact ⟨fun hb mem => (t.saved hb (h.heartbeats ▸ mem)).trans le, fun h => absurd h nc,
      fun h => absurd h nl⟩

theorem settles_becomeFollower {term : Int} (le : cm.currentTerm ≤ term) (now : Int) :
    Settles cm (cm.becomeFollower term now) :=
  ⟨rfl, rfl, Or.inr ⟨(fun h => by cases h), (fun h => by cases h), le⟩⟩

theorem settles_observeTerm (cm : ConsensusModule α) (term now : Int) :
    Settles cm (cm.observeTerm term now) := by
  unfold observeTerm
  split
  · next later => exact settles_becomeFollower later.le now
  · exact .refl cm

theorem settles_requestVote (cm : ConsensusModule α) (args : RequestVoteArgs) (now : Int) :
    Settles cm (cm.requestVote args now).1 := by
  unfold requestVote
  split
  · exact .refl cm
  · refine (cm.settles_observeTerm args.term now).trans ?_
    dsimp only
    split
    · exact ⟨rfl, rfl, Or.inl ⟨rfl, rfl⟩⟩
    · exact .refl _

theorem settles_appendEntries (cm : ConsensusModule α) (args : AppendEntriesArgs α) (now : Int) :
    Settles cm (cm.appendEntries args now).1 := by
  unfold appendEntries
  split
  · exact .refl cm
  · refine (cm.settles_observeTerm args.term now).trans ?_
    dsimp only
    split
    · next current =>
      have leader : Settles (cm.observeTerm args.term now)
          ((cm.observeTerm args.term now).observeLeader args.term now) := by
        unfold observeLeader
        split
        · exact (settles_becomeFollower current.ge now).trans ⟨rfl, rfl, Or.inl ⟨rfl, rfl⟩⟩
        · exact ⟨rfl, rfl, Or.inl ⟨rfl, rfl⟩⟩
      refine leader.trans ?_
      split
      · exact ⟨rfl, rfl, Or.inl ⟨rfl, rfl⟩⟩
      · exact .refl _
    · exact .refl _

theorem settles_commitLoop (cm : ConsensusModule α) : Settles cm cm.commitLoop := by
  obtain ⟨_, _, eq, _⟩ := cm.commitLoop_eq
  rw [eq]
  exact ⟨rfl, rfl, Or.inl ⟨rfl, rfl⟩⟩

theorem observeTerm_hist (cm : ConsensusModule α) (term now : Int) :
    (cm.observeTerm term now).hist = cm.hist := by
  unfold observeTerm
  split <;> rfl

theorem appendEntries_hist (cm : ConsensusModule α) (args : AppendEntriesArgs α) (now : Int) :
    (cm.appendEntries args now).1.hist = cm.hist := by
  unfold appendEntries
  split
  · rfl
  · rw [← cm.observeTerm_hist args.term now]
    dsimp only
    split
    · have leader : ((cm.observeTerm args.term now).observeLeader args.term now).hist =
          (cm.observeTerm args.term now).hist := by
        unfold observeLeader
        split <;> rfl
      rw [← leader]
      split <;> rfl
    · rfl

theorem Tracks.startElection (t : Tracks cm) (now : Int) : Tracks (cm.startElection now) where
  saved hb mem := (t.saved hb mem).trans (Int.le_add_one le_rfl)
  candidate _ hb mem := Int.lt_add_one_of_le (t.saved hb mem)
  matched lead := by cases lead

/-- A new leader has not sent anything in its term. -/
theorem Tracks.startLeader (t : Tracks cm) (candidate : cm.state = .candidate)
    (heartbeats : cm'.heartbeats = cm.heartbeats) (term : cm'.currentTerm = cm.currentTerm)
    (lead : cm'.state = .leader) : Tracks cm' where
  saved := by
    rw [heartbeats, term]
    exact t.saved
  candidate h := by rw [lead] at h; cases h
  matched _ p replied := by
    obtain ⟨hb, mem, _, saved, _⟩ := replied
    rw [heartbeats] at mem
    rw [term] at saved
    exact absurd saved (t.candidate candidate hb mem).ne

theorem Tracks.leaderSendHeartbeats (t : Tracks cm) : Tracks cm.leaderSendHeartbeats := by
  unfold ConsensusModule.leaderSendHeartbeats
  split
  · exact t
  · next lead =>
    have leader := not_not.mp lead
    refine ⟨fun hb mem => ?_, fun h => absurd (leader.symm.trans h) (by decide),
      fun _ p replied => ?_⟩
    · rcases List.mem_append.mp mem with mem | mem
      · exact t.saved hb mem
      · obtain ⟨_, _, rfl⟩ := List.mem_map.mp mem
        exact le_rfl
    · obtain ⟨hb, mem, peer, saved, received⟩ := replied
      rcases List.mem_append.mp mem with mem | mem
      · obtain ⟨hb, mem, args, m⟩ := t.matched leader p ⟨hb, mem, peer, saved, received⟩
        exact ⟨hb, List.mem_append_left _ mem, args, { m with }⟩
      · obtain ⟨_, _, rfl⟩ := List.mem_map.mp mem
        cases received

/-- A goroutine moves on without being written to `matchIndex`. -/
theorem Tracks.updateHeartbeat (t : Tracks cm) {g : Heartbeat α → Heartbeat α}
    (found : cm.heartbeats[k]? = some hb)
    (keeps : ∀ p args, hb.Matched cm p args → (g hb).Matched cm p args)
    (same : ∀ hb, (g hb).peerId = hb.peerId ∧ (g hb).savedCurrentTerm = hb.savedCurrentTerm ∧
      (g hb).received = hb.received) : Tracks (cm.updateHeartbeat k g) where
  saved hb' mem := by
    rcases List.mem_or_eq_of_mem_modify mem with mem | ⟨x, hk, rfl⟩
    · exact t.saved hb' mem
    · rw [(same x).2.1]
      exact t.saved x (List.mem_of_getElem? hk)
  candidate h hb' mem := by
    rcases List.mem_or_eq_of_mem_modify mem with mem | ⟨x, hk, rfl⟩
    · exact t.candidate h hb' mem
    · rw [(same x).2.1]
      exact t.candidate h x (List.mem_of_getElem? hk)
  matched lead p replied := by
    have before : cm.Replied p := by
      obtain ⟨hb', mem, peer, saved, received⟩ := replied
      rcases List.mem_or_eq_of_mem_modify mem with mem | ⟨x, hk, rfl⟩
      · exact ⟨hb', mem, peer, saved, received⟩
      · obtain ⟨p', s', r'⟩ := same x
        exact ⟨x, List.mem_of_getElem? hk, p' ▸ peer, s' ▸ saved, r' ▸ received⟩
    obtain ⟨x, mem, args, m⟩ := t.matched lead p before
    rcases List.mem_modify_or_eq mem found g with mem' | ⟨rfl, mem'⟩
    · exact ⟨x, mem', args, { m with }⟩
    · exact ⟨g x, mem', args, { keeps p args m with }⟩

/-- A goroutine takes a reply that is not written to `matchIndex`. -/
theorem Tracks.receive (t : Tracks cm) {reply : AppendEntriesReply}
    (found : cm.heartbeats[k]? = some hb) (answered : hb.reply = some reply)
    (failed : cm.state = .leader → reply ≠ ⟨hb.savedCurrentTerm, true⟩) :
    Tracks (cm.updateHeartbeat k (Heartbeat.receive reply)) := by
  refine ⟨fun hb' mem => ?_, fun h hb' mem => ?_, fun lead p replied => ?_⟩
  · rcases List.mem_or_eq_of_mem_modify mem with mem | ⟨x, hk, rfl⟩
    · exact t.saved hb' mem
    · exact t.saved x (List.mem_of_getElem? hk)
  · rcases List.mem_or_eq_of_mem_modify mem with mem | ⟨x, hk, rfl⟩
    · exact t.candidate h hb' mem
    · exact t.candidate h x (List.mem_of_getElem? hk)
  · have before : cm.Replied p := by
      obtain ⟨hb', mem, peer, saved, received⟩ := replied
      rcases List.mem_or_eq_of_mem_modify mem with mem | ⟨x, hk, rfl⟩
      · exact ⟨hb', mem, peer, saved, received⟩
      · obtain rfl := Option.some.inj (hk.symm.trans found)
        exact absurd ((Option.some.inj received).trans (by rw [← saved]; rfl)) (failed lead)
    obtain ⟨x, mem, args, m⟩ := t.matched lead p before
    rcases List.mem_modify_or_eq mem found (Heartbeat.receive reply) with mem' | ⟨rfl, _⟩
    · exact ⟨x, mem', args, { m with }⟩
    · have same := Option.some.inj (answered.symm.trans m.reply)
      exact absurd (same.trans (by rw [m.saved])) (failed lead)

/-- A leader takes a successful reply of its term. -/
theorem Tracks.success (t : Tracks cm) {args : AppendEntriesArgs α}
    (found : cm.heartbeats[k]? = some hb) (sent : hb.args = some args)
    (saved : hb.savedCurrentTerm = cm.currentTerm)
    (answered : hb.reply = some ⟨cm.currentTerm, true⟩) (lead : cm.state = .leader)
    (heartbeats : cm'.heartbeats =
      cm.heartbeats.modify k (Heartbeat.receive ⟨cm.currentTerm, true⟩))
    (term : cm'.currentTerm = cm.currentTerm) (state : cm'.state = cm.state)
    (matchIndex : cm'.matchIndex =
      cm.matchIndex.insert hb.peerId (hb.ni + args.entries.length - 1)) : Tracks cm' := by
  refine ⟨fun hb' mem => ?_, fun h => absurd (lead.symm.trans (state.symm.trans h)) (by decide),
    fun _ p replied => ?_⟩
  · rw [term]
    rw [heartbeats] at mem
    rcases List.mem_or_eq_of_mem_modify mem with mem | ⟨x, hk, rfl⟩
    · exact t.saved hb' mem
    · exact t.saved x (List.mem_of_getElem? hk)
  · by_cases own : p = hb.peerId
    · have mem : Heartbeat.receive ⟨cm.currentTerm, true⟩ hb ∈ cm'.heartbeats := by
        rw [heartbeats]
        refine List.mem_iff_getElem?.mpr ⟨k, ?_⟩
        rw [List.getElem?_modify_eq, found]
        rfl
      refine ⟨_, mem, args, own.symm, saved.trans term.symm, sent, ?_, ?_, ?_⟩
      · exact term ▸ answered
      · exact term ▸ rfl
      · rw [matchIndex, own, get, AList.lookup_insert]
        rfl
    · have before : cm.Replied p := by
        obtain ⟨hb', mem, peer, saved', received⟩ := replied
        rw [heartbeats] at mem
        rw [term] at saved' received
        rcases List.mem_or_eq_of_mem_modify mem with mem | ⟨x, hk, rfl⟩
        · exact ⟨hb', mem, peer, saved', received⟩
        · obtain rfl := Option.some.inj (hk.symm.trans found)
          exact absurd peer.symm own
      obtain ⟨x, mem, args', m⟩ := t.matched lead p before
      rcases List.mem_modify_or_eq mem found (Heartbeat.receive ⟨cm.currentTerm, true⟩) with
        mem' | ⟨rfl, _⟩
      · refine ⟨x, heartbeats ▸ mem', args', m.peer, m.saved.trans term.symm, m.sent, ?_, ?_, ?_⟩
        · exact term ▸ m.reply
        · exact term ▸ m.received
        · rw [matchIndex, get, AList.lookup_insert_ne own]
          exact m.matchIndex
      · exact absurd m.peer.symm own

theorem Tracks.heartbeatReply (t : Tracks cm) {args : AppendEntriesArgs α}
    {reply : AppendEntriesReply} {now : Int} (found : cm.heartbeats[k]? = some hb)
    (sent : hb.args = some args) (answered : hb.reply = some reply)
    (later : hb.savedCurrentTerm < reply.term → cm.currentTerm < reply.term)
    (current : cm.state = .leader → reply = ⟨hb.savedCurrentTerm, true⟩ →
      cm.currentTerm = hb.savedCurrentTerm) :
    Tracks ((cm.updateHeartbeat k (Heartbeat.receive reply)).heartbeatReply hb
      args.entries.length reply now) := by
  rcases (cm.updateHeartbeat k (Heartbeat.receive reply)).heartbeatReply_cases hb
    args.entries.length reply now with ⟨lt, eq⟩ | ⟨lead, rfl, eq⟩ | ⟨failed, _, eq⟩
  · rw [eq]
    have received := t.receive found answered fun _ h => by
      rw [h] at lt
      exact lt.false
    exact received.settles ⟨rfl, rfl, Or.inr ⟨fun h => (by cases h), fun h => (by cases h),
      (later lt).le⟩⟩
  · have term := current lead rfl
    rw [eq]
    refine Tracks.settles ?_ (settles_commitLoop _)
    rw [← term] at answered ⊢
    exact t.success found sent term.symm answered lead rfl rfl rfl rfl
  · rw [eq]
    exact (t.receive found answered failed).settles ⟨rfl, rfl, Or.inl ⟨rfl, rfl⟩⟩

theorem Tracks.countVote (t : Tracks cm) (candidate : cm.state = .candidate) (e : Nat)
    (el : Election) : Tracks (cm.countVote e el) := by
  unfold ConsensusModule.countVote
  dsimp only
  split
  · exact t.startLeader candidate rfl rfl rfl
  · exact t.settles ⟨rfl, rfl, Or.inl ⟨rfl, rfl⟩⟩

end ConsensusModule

namespace Network
variable {s s' : Network α} {a : Action α} {n : Nat} {h : List (Network α × Action α)}

theorem tracks_step (t : ∀ i, (s.node i).Tracks) (tr : Transition s a s')
    (later : s.RepliesLater a) (current : s.SuccessesOfThisTerm a) (i : Int) :
    (s'.node i).Tracks := by
  revert i
  cases tr with
  | tick i k now timeout cm ticks =>
      obtain ⟨_, _, rfl⟩ := ticks
      exact forall_set t ((t i).settles ⟨rfl, rfl, Or.inl ⟨rfl, rfl⟩⟩)
  | startElection i k now timeout timers _ =>
      have quiet : (s.node i).Settles { s.node i with timers := timers } :=
        ⟨rfl, rfl, Or.inl ⟨rfl, rfl⟩⟩
      exact forall_set t (((t i).settles quiet).startElection now)
  | voteSend i e k el call _ _ =>
      exact forall_set t ((t i).settles ⟨rfl, rfl, Or.inl ⟨rfl, rfl⟩⟩)
  | voteServe i e k now el call args _ _ _ _ =>
      have served := forall_set (i := call.peerId) t ((t call.peerId).settles
        ((s.node call.peerId).settles_requestVote args now))
      exact forall_set served ((served i).settles ⟨rfl, rfl, Or.inl ⟨rfl, rfl⟩⟩)
  | voteReturn i e k now el call reply found answered _ =>
      have replied : ((s.node i).voteReply e el reply now).Tracks := by
        rcases (s.node i).voteReply_cases e el reply now with
          eq | ⟨candidate, lt, eq⟩ | ⟨candidate, _, eq⟩
        · rw [eq]
          exact t i
        · rw [eq]
          have lt' := later (el, call) found reply answered candidate lt
          exact (t i).settles (ConsensusModule.settles_becomeFollower lt'.le now)
        · rw [eq]
          exact (t i).countVote candidate e el
      exact forall_set t (replied.settles ⟨rfl, rfl, Or.inl ⟨rfl, rfl⟩⟩)
  | voteFail i e k el call _ =>
      exact forall_set t ((t i).settles ⟨rfl, rfl, Or.inl ⟨rfl, rfl⟩⟩)
  | leaderSendHeartbeats i => exact forall_set t (t i).leaderSendHeartbeats
  | heartbeatSend i k hb found unsent _ _ =>
      refine forall_set t ((t i).updateHeartbeat found (fun _ _ m => ?_) fun _ => ⟨rfl, rfl, rfl⟩)
      exact absurd (unsent.symm.trans m.sent) (by simp)
  | heartbeatServe i k now hb args found _ unserved _ =>
      have served := forall_set (i := hb.peerId) t ((t hb.peerId).settles
        ((s.node hb.peerId).settles_appendEntries args now))
      have q := (s.node hb.peerId).settles_appendEntries args now
      have found' : ((s.set hb.peerId ((s.node hb.peerId).appendEntries args now).1).node
          i).heartbeats[k]? = some hb := by
        by_cases own : i = hb.peerId
        · rw [own] at found ⊢
          rw [set_node, Function.update_self, q.heartbeats]
          exact found
        · rwa [set_node, Function.update_of_ne own]
      refine forall_set served ((served i).updateHeartbeat found' (fun _ _ m => ?_)
        fun _ => ⟨rfl, rfl, rfl⟩)
      exact absurd (unserved.symm.trans m.reply) (by simp)
  | heartbeatReturn i k now hb args reply found sent answered _ =>
      exact forall_set t ((t i).heartbeatReply found sent answered (later hb found reply answered)
        (current hb found reply answered))
  | heartbeatFail i k hb found =>
      exact forall_set t ((t i).updateHeartbeat found (fun _ _ m => { m with })
        fun _ => ⟨rfl, rfl, rfl⟩)
  | submit i command =>
      refine forall_set t ((t i).settles ?_)
      unfold ConsensusModule.submit
      split <;> exact ⟨rfl, rfl, Or.inl ⟨rfl, rfl⟩⟩
  | stop i =>
      exact forall_set t ((t i).settles
        ⟨rfl, rfl, Or.inr ⟨fun h => (by cases h), fun h => (by cases h), le_rfl⟩⟩)

/-! Where commits come from. -/

theorem commit_set {i j : Int} {cm : ConsensusModule α} {c : Commit α}
    (hc : .commit c ∈ ((s.set i cm).node j).hist)
    (old : .commit c ∈ cm.hist → .commit c ∈ (s.node i).hist) : .commit c ∈ (s.node j).hist := by
  by_cases e : j = i
  · subst e
    rw [set_node, Function.update_self] at hc
    exact old hc
  · rwa [set_node, Function.update_of_ne e] at hc

/-- A commit that a step adds is decided on in the maps that a reply has left. -/
theorem Transition.commit (tr : Transition s a s') {i : Int} {c : Commit α}
    (hc : .commit c ∈ (s'.node i).hist) : .commit c ∈ (s.node i).hist ∨
      ∃ k now hb args, a = .heartbeatReturn i k now ∧ (s.node i).heartbeats[k]? = some hb ∧
        hb.args = some args ∧ hb.reply = some ⟨hb.savedCurrentTerm, true⟩ ∧
        (s.node i).state = .leader ∧
        s' = s.set i (((s.node i).updateHeartbeat k (Heartbeat.receive
          ⟨hb.savedCurrentTerm, true⟩)).advance hb args.entries.length).commitLoop ∧
        (((s.node i).updateHeartbeat k (Heartbeat.receive
          ⟨hb.savedCurrentTerm, true⟩)).advance hb args.entries.length).Decides c := by
  cases tr with
  | tick j k now timeout cm ticks =>
      obtain ⟨_, _, rfl⟩ := ticks
      exact Or.inl (commit_set hc fun h => h)
  | startElection j k now timeout timers _ =>
      exact Or.inl (commit_set hc fun h => (List.mem_cons.mp h).resolve_left (by simp))
  | voteSend j e k el call _ _ => exact Or.inl (commit_set hc fun h => h)
  | voteServe j e k now el call args _ _ _ _ =>
      refine Or.inl (commit_set (commit_set hc fun h => h) fun h => ?_)
      unfold ConsensusModule.requestVote at h
      split at h
      · exact h
      · dsimp only at h
        rw [← ConsensusModule.observeTerm_hist (s.node call.peerId) args.term now]
        split at h
        · exact (List.mem_cons.mp h).resolve_left (by simp)
        · exact h
  | voteReturn j e k now el call reply _ _ _ =>
      refine Or.inl (commit_set hc fun h => ?_)
      rcases (s.node j).voteReply_cases e el reply now with eq | ⟨_, _, eq⟩ | ⟨_, _, eq⟩
      · rwa [eq] at h
      · rwa [eq] at h
      · rw [eq, ConsensusModule.countVote] at h
        split at h
        · exact (List.mem_cons.mp h).resolve_left (by simp)
        · exact h
  | voteFail j e k el call _ => exact Or.inl (commit_set hc fun h => h)
  | leaderSendHeartbeats j =>
      refine Or.inl (commit_set hc fun h => ?_)
      unfold ConsensusModule.leaderSendHeartbeats at h
      split at h <;> exact h
  | heartbeatSend j k hb _ _ _ _ => exact Or.inl (commit_set hc fun h => h)
  | heartbeatServe j k now hb args _ _ _ _ =>
      refine Or.inl (commit_set (commit_set hc fun h => h) fun h => ?_)
      rwa [ConsensusModule.appendEntries_hist] at h
  | heartbeatReturn j k now hb args reply found sent answered _ =>
      rcases ((s.node j).updateHeartbeat k (Heartbeat.receive reply)).heartbeatReply_cases hb
        args.entries.length reply now with ⟨_, eq⟩ | ⟨lead, rfl, eq⟩ | ⟨_, _, eq⟩
      · rw [eq] at hc
        exact Or.inl (commit_set hc fun h => h)
      · rw [eq] at hc ⊢
        obtain ⟨_, commits, eq', decided⟩ := ConsensusModule.commitLoop_eq
          (((s.node j).updateHeartbeat k (Heartbeat.receive
            ⟨hb.savedCurrentTerm, true⟩)).advance hb args.entries.length)
        by_cases e : i = j
        · subst e
          rw [set_node, Function.update_self, eq'] at hc
          rcases List.mem_append.mp hc with new | old
          · obtain ⟨_, same, decides⟩ := decided _ new
            obtain rfl := Event.commit.inj same
            exact Or.inr ⟨k, now, hb, args, rfl, found, sent, answered, lead, rfl, decides⟩
          · exact Or.inl old
        · rw [set_node, Function.update_of_ne e] at hc
          exact Or.inl hc
      · rw [eq] at hc
        exact Or.inl (commit_set hc fun h => h)
  | heartbeatFail j k hb _ => exact Or.inl (commit_set hc fun h => h)
  | submit j command =>
      refine Or.inl (commit_set hc fun h => ?_)
      unfold ConsensusModule.submit at h
      split at h <;> exact h
  | stop j => exact Or.inl (commit_set hc fun h => h)

theorem tracks_run (run : Run Network.step (startUp α n) h s) (later : Meets RepliesLater h)
    (current : Meets SuccessesOfThisTerm h) (i : Int) : (s.node i).Tracks := by
  have keeps : Meets (fun s a => s.RepliesLater a ∧ s.SuccessesOfThisTerm a) h :=
    fun p hp => ⟨later p hp, current p hp⟩
  refine run.stateInvariant (I := fun s => ∀ i, (s.node i).Tracks) keeps (fun i => ?_)
    (fun s a s' t ok hs => tracks_step t (Transition.of_step hs).2 ok.1 ok.2) i
  exact ⟨fun _ h => absurd h List.not_mem_nil, fun _ _ h => absurd h List.not_mem_nil,
    fun h => by cases h⟩

/-- The peers that a commit counts have replied by then, and `matchIndex` is what they
have replied to. -/
theorem counted_replied {i : Int} {k : Nat} {now : Int} {hb : Heartbeat α}
    {args : AppendEntriesArgs α} {c : Commit α} {p : Int} {cm : ConsensusModule α}
    (found : (s.node i).heartbeats[k]? = some hb)
    (answered : hb.reply = some ⟨hb.savedCurrentTerm, true⟩)
    (lead : (s.node i).state = .leader)
    (current : (s.node i).currentTerm = hb.savedCurrentTerm)
    (counts : s.CountsReplies (.heartbeatReturn i k now))
    (decides : (((s.node i).updateHeartbeat k (Heartbeat.receive
      ⟨hb.savedCurrentTerm, true⟩)).advance hb args.entries.length).Decides c)
    (hp : p ∈ c.counted) (term : cm.currentTerm = (s.node i).currentTerm)
    (heartbeats : cm.heartbeats = (s.node i).heartbeats.modify k (Heartbeat.receive
      ⟨hb.savedCurrentTerm, true⟩)) : cm.Replied p := by
  have taken : Heartbeat.receive ⟨hb.savedCurrentTerm, true⟩ hb ∈ cm.heartbeats := by
    rw [heartbeats]
    refine List.mem_iff_getElem?.mpr ⟨k, ?_⟩
    rw [List.getElem?_modify_eq, found]
    rfl
  by_cases own : p = hb.peerId
  · refine ⟨_, taken, own.symm, current.symm.trans term.symm, ?_⟩
    rw [term, current]
    rfl
  · obtain ⟨j, hj⟩ := Int.eq_ofNat_of_zero_le decides.inside.1
    have inside := decides.inside.2
    have behind := decides.behind
    have entry := decides.current
    rw [decides.counted] at hp
    obtain ⟨peer, most⟩ := List.mem_filter.mp hp
    rw [hj] at inside behind entry most
    have before : p ∈ (s.node i).counted j := by
      refine List.mem_filter.mpr ⟨peer, ?_⟩
      change decide (get (AList.insert hb.peerId _ _) p ≥ (j : Int)) = true at most
      rwa [get, AList.lookup_insert_ne own] at most
    rcases counts hb found _ answered lead rfl j (List.mem_range.mpr (by exact_mod_cast inside))
      behind entry p before with h | ⟨x, mem, facts⟩
    · exact absurd h own
    · rcases List.mem_modify_or_eq mem found (Heartbeat.receive ⟨hb.savedCurrentTerm, true⟩) with
        mem' | ⟨rfl, _⟩
      · exact ⟨x, heartbeats ▸ mem', by rwa [term]⟩
      · exact absurd facts.1.symm own

end Network
end Prototype
end OhMyDb
