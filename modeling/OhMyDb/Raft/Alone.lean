import OhMyDb.Lib.Ballot
import OhMyDb.Storage.Votes

/-!
One replica by itself, with anything that may reach it from outside: requests and
replies nobody need have sent, in any order. Every replica of a cluster is one. Its
votes of a term are for one candidate as long as `VotedFor` speaks for the term when
it is asked again.
-/

namespace OhMyDb
open Function (update)
open Execution

/-- What reaches a replica, and what its own threads do. -/
inductive Stimulus where
  | electionTick (now electionTimeoutMillis : Int)
  | requestVote (args : RequestVoteParams) (now : Int)
  | appendEntries (owner : Int) (k : Nat) (args : AppendEntriesParams) (now : Int)
  | appendResume (j : Nat)
  | voteSend (k : Nat)
  | voteReply (k : Nat) (reply : RequestVoteRet)
  | voteReturn (k : Nat) (reply : RequestVoteRet) (now : Int)
  | voteFail (k : Nat)
  | raftImpl
  | appendSend (k : Nat) (junk : Int)
  | appendReply (k : Nat) (reply : AppendEntriesRet)
  | appendReturn (k : Nat) (reply : AppendEntriesRet) (now : Int)
  | appendFail (k : Nat)
  | executer (ok : Bool)
  | client (command : Command)
  | addServer (args : AddServerParams)
  | removeServer (serverId : Int)
  | callStep (j : Nat) (now : Int)

/-- A request as the service decodes it: no operation carries a promise. -/
def AppendEntriesParams.received (args : AppendEntriesParams) : AppendEntriesParams :=
  { args with entries := args.entries.map fun e => { e with op := e.op.withoutPromise } }

namespace Replica

/-- A suspended `AppendEntries` call goes on. -/
def appendResume (r : Replica) (j : Nat) : Option Replica :=
  match r.handlers[j]? with
  | none => none
  | some h =>
      match h.update with
      | some peer =>
          let x := r.updatePeers peer
          some { x with handlers := x.handlers.set j { h with update := none } }
      | none =>
          let x := { r with handlers := r.handlers.eraseIdx j }.checkIndex h.current
          some ((x.appendRest h.args h.rest).1.settle h.owner h.thread h.args
            (x.appendRest h.args h.rest).2)

def hear (r : Replica) : Stimulus → Option Replica
  | .electionTick now timeout => some (r.electionTick now timeout)
  | .requestVote args now => some (r.requestVote args now).1
  | .appendEntries owner k args now =>
      some ((r.appendEntries args.received now).1.settle owner k args.received
        (r.appendEntries args.received now).2)
  | .appendResume j => r.appendResume j
  | .voteSend k => r.voteSend k
  | .voteReply k reply =>
      some (r.updateVoteThread k fun t => { t with replies := reply :: t.replies })
  | .voteReturn k reply now => r.voteReturn k reply now
  | .voteFail k => r.voteFail k
  | .raftImpl => some r.raftImpl
  | .appendSend k junk => r.appendSend k junk
  | .appendReply k reply =>
      some (r.updateAppendThread k fun t => { t with replies := reply :: t.replies })
  | .appendReturn k reply now => r.appendReturn k reply now
  | .appendFail k => r.appendFail k
  | .executer ok => some (r.executer ok)
  | .client command => if command.isClient = true then some (r.clientCall command) else none
  | .addServer args => some (r.addServer args)
  | .removeServer serverId => some (r.removeServer serverId)
  | .callStep j now => r.callStep j now

/-- What comes in or is done without a look at the term or the vote. -/
def Calm (r : Replica) : Stimulus → Prop
  | .electionTick _ _ | .requestVote _ _ | .voteReturn _ _ _ | .appendEntries _ _ _ _
  | .appendSend _ _ | .appendReturn _ _ _ => False
  | .callStep j _ => ∀ call ∈ r.calls[j]?, ¬ r.StepsDown call
  | _ => True

variable {r r' : Replica} {s : Stimulus}

theorem received_bare (args : AppendEntriesParams) :
    ∀ e ∈ args.received.entries, e.op.promiseHandle = none := by
  intro e he
  obtain ⟨_, _, rfl⟩ := List.mem_map.mp he
  rfl

/-- Nothing reaches a replica that does not change it as replicas change. -/
theorem hear_changes {P : Prop} (bare : r.Bare) (ok : ¬ r.Calm s → P) (h : r.hear s = some r') :
    Changes { stand := P } r r' := by
  cases s with
  | electionTick now timeout =>
      cases h
      exact electionTick_changes (ok fun calm => calm) r now timeout
  | requestVote args now =>
      cases h
      exact requestVote_changes (ok fun calm => calm) r args now
  | appendEntries owner k args now =>
      cases h
      exact appendEntries_changes (ok fun calm => calm) r args.received now (received_bare args)
        fun _ _ => ⟨True.intro, fun _ _ => True.intro⟩
  | appendResume j =>
      simp only [hear, appendResume] at h
      split at h
      · cases h
      · next x hx =>
        split at h
        · next u hu =>
          cases h
          have same : (r.updatePeers u).handlers = r.handlers := by cases u <;> rfl
          rw [same]
          exact .single (.updateHandler j x u hx hu True.intro)
        · next hu =>
          cases h
          exact .head (.again j x hx hu) (resume_changes
            { r with handlers := r.handlers.eraseIdx j } x hu
            (bare.handlers x (List.mem_of_getElem? hx)) fun _ _ => True.intro)
  | voteSend k =>
      obtain ⟨t, _, _, _, _, rfl⟩ := voteSend_eq_some h
      exact .single (.elect _)
  | voteReply k reply =>
      cases h
      exact .single (.elect _)
  | voteReturn k reply now =>
      obtain ⟨t, _, _, _, rfl⟩ := voteReturn_eq_some h
      exact (voteReply_changes (ok fun calm => calm) _ _ _ _ fun _ => True.intro).tail (.elect _)
  | voteFail k =>
      obtain ⟨t, _, _, rfl⟩ := voteFail_eq_some h
      exact .single (.elect _)
  | raftImpl =>
      cases h
      exact raftImpl_changes r True.intro (fun _ => True.intro) (fun _ _ _ _ => True.intro) bare
  | appendSend k junk =>
      obtain ⟨t, _, _, _, _, rfl⟩ := appendSend_eq_some h
      refine (Changes.stands (s := { r.state with
        nextIndex := (r.state.nextIndex.subscript t.peer 0).2 }) (ok fun calm => calm) rfl
        fun lead => lead).tail (.send _ fun u hu => ?_)
      rcases List.mem_or_eq_of_mem_modify hu with hu | ⟨v, hv, rfl⟩
      · exact bare.threads u hu
      · rintro args ⟨⟩
        exact entriesFrom_bare _ _
  | appendReply k reply =>
      cases h
      exact Changes.updateAppendThread .refl bare k fun _ => rfl
  | appendReturn k reply now =>
      obtain ⟨t, args, _, _, _, _, rfl⟩ := appendReturn_eq_some h
      exact (appendReply_changes (ok fun calm => calm) _ _ _ _ _ _ _).updateAppendThread bare k
        fun _ => rfl
  | appendFail k =>
      obtain ⟨t, _, _, rfl⟩ := appendFail_eq_some h
      exact Changes.updateAppendThread .refl bare k fun _ => rfl
  | executer status =>
      cases h
      exact executer_changes r status fun _ _ => True.intro
  | client command =>
      obtain ⟨client, e⟩ := Option.ite_none_right_eq_some.mp h
      cases e
      exact .single (.client command client)
  | addServer args =>
      cases h
      exact addServer_changes r args fun _ => True.intro
  | removeServer serverId =>
      cases h
      exact removeServer_changes r serverId fun _ => True.intro
  | callStep j now =>
      obtain ⟨call, p, hc, hp, rfl⟩ := callStep_eq_some h
      refine advance_changes hc True.intro (fun _ => True.intro) (fun down => ok fun calm => ?_) hp
      exact calm call hc down

/-! The vote. -/

/-- The voter a replica is. -/
def voter (r : Replica) : Ballot.Voter Int Int where
  term := r.state.currentTerm
  votedFor := r.state.votedFor
  votes := fun p => .voted p.1 p.2 ∈ r.hist

/-- The candidate the replica votes for, and the term. -/
def ballot (r : Replica) : Stimulus → Option (Int × Int)
  | .electionTick now timeout =>
      if r.state.role = .follower ∧ now - r.state.electionResetEvent > timeout then
        some (r.id, r.state.currentTerm + 1)
      else none
  | .requestVote args now =>
      if args.candidateId ∈ r.peers ∧ r.grantsVote args now then
        some (args.candidateId, args.term)
      else none
  | _ => none

/-- A vote that `VotedFor` does not speak for, because it is empty or stands for a lower term,
is the first of its term or goes to the same candidate. -/
def NotForgotten (r : Replica) (s : Stimulus) : Prop :=
  ∀ p ∈ r.ballot s, (p.2 = r.state.currentTerm → r.state.votedFor = -1) →
    ∀ v ∈ r.votes, v.2 = p.2 → v.1 = p.1

instance (r : Replica) (s : Stimulus) : Decidable (r.NotForgotten s) :=
  inferInstanceAs (Decidable (∀ p ∈ r.ballot s, (_ = _ → _ = _) → ∀ v ∈ r.votes, _ → _))

open Ballot (Step)

theorem voter_eq {t c : Int} {votes : Set (Int × Int)} (term : r.state.currentTerm = t)
    (votedFor : r.state.votedFor = c)
    (hist : ∀ p : Int × Int, .voted p.1 p.2 ∈ r.hist ↔ p ∈ votes) : r.voter = ⟨t, c, votes⟩ :=
  Ballot.Voter.ext term votedFor (Set.ext hist)

/-- The vote of a term and what is remembered of it are as before. -/
theorem voter_keep (term : r'.state.currentTerm = r.state.currentTerm)
    (votedFor : r'.state.votedFor = r.state.votedFor)
    (hist : ∀ c t, .voted c t ∈ r'.hist ↔ .voted c t ∈ r.hist) :
    Step (-1) r.voter none r'.voter := by
  rw [voter_eq term votedFor fun p => hist p.1 p.2]
  exact .keep

theorem voter_follow {t : Int} (term : r'.state.currentTerm = t)
    (votedFor : r'.state.votedFor = -1)
    (hist : ∀ c t, .voted c t ∈ r'.hist ↔ .voted c t ∈ r.hist) :
    Step (-1) r.voter none r'.voter := by
  rw [voter_eq term votedFor fun p => hist p.1 p.2]
  exact .follow t

theorem voter_vote {c t : Int}
    (free : t = r.state.currentTerm → r.state.votedFor = -1 ∨ r.state.votedFor = c)
    (term : r'.state.currentTerm = t) (votedFor : r'.state.votedFor = c)
    (hist : r'.hist = .voted c t :: r.hist) : Step (-1) r.voter (some (c, t)) r'.voter := by
  have votes (p : Int × Int) :
      .voted p.1 p.2 ∈ r'.hist ↔ p ∈ insert (c, t) r.voter.votes := by
    rw [hist, List.mem_cons, Event.voted.injEq, Set.mem_insert_iff, Prod.ext_iff]
    exact Iff.rfl
  rw [voter_eq term votedFor votes]
  exact .vote c t free

theorem electionTick_voter (r : Replica) (now timeout : Int) :
    Step (-1) r.voter (r.ballot (.electionTick now timeout))
      (r.electionTick now timeout).voter := by
  simp only [ballot, electionTick]
  split
  · exact voter_vote (fun same => absurd same (by simp)) rfl rfl rfl
  · exact .keep

theorem requestVote_voter (r : Replica) (args : RequestVoteParams) (now : Int) :
    Step (-1) r.voter (r.ballot (.requestVote args now)) (r.requestVote args now).1.voter := by
  simp only [ballot, requestVote]
  by_cases member : args.candidateId ∈ r.peers
  · rw [if_neg (not_not.mpr member)]
    by_cases grants : r.grantsVote args now
    · rw [if_pos grants, if_pos ⟨member, grants⟩]
      have term : (r.observeTerm args.term now).currentTerm = args.term := grants.1.symm
      refine voter_vote (fun same => ?_) term rfl (by rw [term])
      have here : r.observeTerm args.term now = r.state := by
        rw [observeTerm, if_neg (by rw [same]; exact lt_irrefl _)]
      rw [← here]
      exact grants.2.1
    · rw [if_neg grants, if_neg fun h => grants h.2]
      unfold observeTerm
      split
      · next later => exact .follow _
      · exact .keep
  · rw [if_pos member, if_neg fun h => member h.1]
    exact .keep

theorem voteReply_voter (r : Replica) (saved : Int) (reply : RequestVoteRet) (now : Int) :
    Step (-1) r.voter none (r.voteReply saved reply now).voter := by
  rcases r.voteReply_cases saved reply now with
    ⟨e, _⟩ | ⟨role, later, e⟩ | ⟨_, _, ⟨_, e⟩ | ⟨_, s, hs, e⟩⟩
  · rw [e]
    exact .keep
  · rw [e]
    exact .follow reply.term
  · rw [e]
    exact .keep
  · rw [e]
    refine voter_follow (by rw [hs]) (by rw [hs]; rfl) fun c t => ?_
    exact List.mem_cons.trans (or_iff_right Event.noConfusion)

theorem settle_voter (r : Replica) (owner : Int) (k : Nat) (args : AppendEntriesParams)
    (outcome : AppendOutcome) : (r.settle owner k args outcome).voter = r.voter := by
  cases outcome <;> rfl

/-- The sender of `AppendEntries` is followed, or leaves the vote alone. -/
theorem meetLeader_voter (r : Replica) (args : AppendEntriesParams) (now : Int) :
    Step (-1) r.voter none ({ r with state := r.meetLeader args now } : Replica).voter := by
  unfold meetLeader
  split
  · exact .keep
  by_cases later : args.term > r.state.currentTerm
  · simp only [observeLeader, if_pos later]
    split_ifs <;> exact .follow args.term
  · by_cases again : args.term = r.state.currentTerm ∧ r.state.role ≠ .follower
    · simp only [observeLeader, if_neg later, if_pos again]
      exact .follow args.term
    · simp only [observeLeader, if_neg later, if_neg again]
      exact .keep

theorem appendEntries_voter (r : Replica) (args : AppendEntriesParams) (now : Int)
    (bare : ∀ e ∈ args.entries, e.op.promiseHandle = none) :
    Step (-1) r.voter none (r.appendEntries args now).1.voter := by
  have still := r.appendEntries_steady args now bare
  have same : (r.appendEntries args now).1.voter =
      ({ r with state := r.meetLeader args now } : Replica).voter :=
    voter_eq still.term still.votedFor fun _ => (r.quiet_appendEntries args now).voted
  rw [same]
  exact r.meetLeader_voter args now

theorem appendReply_voter (r : Replica) (id saved nextIndex : Int) (n : Nat)
    (reply : AppendEntriesRet) (now : Int) :
    Step (-1) r.voter none (r.appendReply id saved nextIndex n reply now).voter := by
  by_cases later : saved < reply.term
  · rw [appendReply, if_pos later]
    exact .follow reply.term
  · have still := r.appendReply_steady id saved nextIndex n reply now later
    rcases r.appendReply_cases id saved nextIndex n reply now with ⟨fresh, _⟩ | ⟨_, quiet⟩
    · exact absurd fresh later
    · exact voter_keep still.term still.votedFor fun _ _ => quiet.voted

/-- Nothing calm is a vote or changes the role. -/
theorem calm_still (calm : r.Calm s) (h : r.hear s = some r') :
    r'.state.role = r.state.role ∧ ∀ c t, .voted c t ∈ r'.hist ↔ .voted c t ∈ r.hist := by
  cases s with
  | electionTick | requestVote | voteReturn | appendEntries | appendSend | appendReturn =>
      exact calm.elim
  | appendResume j =>
      simp only [hear, appendResume] at h
      split at h
      · cases h
      · next x hx =>
        split at h
        · next u hu =>
          cases h
          have kept := r.keeps_updatePeers u
          exact ⟨kept.role, fun _ _ => kept.voted⟩
        · next hu =>
          cases h
          have quiet := (quiet_checkIndex { r with handlers := r.handlers.eraseIdx j }
            x.current).trans (quiet_appendRest _ x.args x.rest)
          have settled : ∀ y o, ((y : Replica).settle x.owner x.thread x.args o).state = y.state ∧
              (y.settle x.owner x.thread x.args o).hist = y.hist := by
            intro y o
            cases o <;> exact ⟨rfl, rfl⟩
          rw [(settled _ _).1, (settled _ _).2]
          exact ⟨quiet.role, fun _ _ => quiet.voted⟩
  | voteSend k =>
      obtain ⟨_, _, _, _, _, rfl⟩ := voteSend_eq_some h
      exact ⟨rfl, fun _ _ => Iff.rfl⟩
  | voteFail k =>
      obtain ⟨_, _, _, rfl⟩ := voteFail_eq_some h
      exact ⟨rfl, fun _ _ => Iff.rfl⟩
  | voteReply k reply | appendReply k reply =>
      cases h
      exact ⟨rfl, fun _ _ => Iff.rfl⟩
  | raftImpl =>
      cases h
      exact ⟨r.keeps_raftImpl.role, fun _ _ => r.keeps_raftImpl.voted⟩
  | appendFail k =>
      obtain ⟨_, _, _, rfl⟩ := appendFail_eq_some h
      exact ⟨rfl, fun _ _ => Iff.rfl⟩
  | executer status =>
      cases h
      have quiet := r.quiet_executer status
      exact ⟨quiet.role, fun _ _ => quiet.voted⟩
  | client command =>
      obtain ⟨_, e⟩ := Option.ite_none_right_eq_some.mp h
      cases e
      have quiet := r.quiet_clientCall command
      exact ⟨quiet.role, fun _ _ => quiet.voted⟩
  | addServer args =>
      cases h
      have quiet := r.quiet_addServer args
      exact ⟨quiet.role, fun _ _ => quiet.voted⟩
  | removeServer serverId =>
      cases h
      have quiet := r.quiet_removeServer serverId
      exact ⟨quiet.role, fun _ _ => quiet.voted⟩
  | callStep j now =>
      obtain ⟨call, p, hc, hp, rfl⟩ := callStep_eq_some h
      rcases advance_cases hp with ⟨down, _⟩ | ⟨_, quiet⟩
      · exact absurd down (calm call hc)
      · exact ⟨quiet.role, fun _ _ => quiet.voted⟩

theorem calm_voter (bare : r.Bare) (calm : r.Calm s) (h : r.hear s = some r') :
    Step (-1) r.voter none r'.voter := by
  have still := Changes.steady (R := { stand := False })
    (hear_changes bare (fun stirs => stirs calm) h) fun stirs => stirs
  exact voter_keep still.term still.votedFor (calm_still calm h).2

/-- What a replica hears is a step of the voter it is. -/
theorem hear_voter (bare : r.Bare) (h : r.hear s = some r') :
    Step (-1) r.voter (r.ballot s) r'.voter := by
  cases s with
  | electionTick now timeout =>
      cases h
      exact r.electionTick_voter now timeout
  | requestVote args now =>
      cases h
      exact r.requestVote_voter args now
  | appendEntries owner k args now =>
      cases h
      rw [settle_voter]
      exact r.appendEntries_voter args.received now (received_bare args)
  | voteReturn k reply now =>
      obtain ⟨t, ht, _, _, rfl⟩ := voteReturn_eq_some h
      exact r.voteReply_voter t.savedCurrentTerm reply now
  | appendReturn k reply now =>
      obtain ⟨t, args, ht, _, _, _, rfl⟩ := appendReturn_eq_some h
      exact r.appendReply_voter t.peer t.savedCurrentTerm t.nextIndex args.entries.length reply now
  | appendSend k junk =>
      obtain ⟨_, _, _, _, _, rfl⟩ := appendSend_eq_some h
      exact .keep
  | callStep j now =>
      by_cases calm : r.Calm (.callStep j now)
      · exact calm_voter bare calm h
      · obtain ⟨call, p, hc, hp, rfl⟩ := callStep_eq_some h
        rcases advance_cases hp with ⟨down, e⟩ | ⟨still, _⟩
        · rw [e]
          exact .follow (-1)
        · refine absurd (fun other other_mem => ?_) calm
          rw [Option.mem_def, hc] at other_mem
          cases other_mem
          exact still
  | _ =>
      refine calm_voter bare ?_ h
      exact True.intro

/-- Nothing sets a replica dead. -/
theorem hear_alive (alive : r.state.role ≠ .dead) (h : r.hear s = some r') :
    r'.state.role ≠ .dead := by
  have follower {x : RaftState} (role : x.role = .follower) : x.role ≠ .dead := by
    rw [role]
    decide
  cases s with
  | electionTick now timeout =>
      cases h
      unfold electionTick
      split
      · exact fun dead => RaftRole.noConfusion dead
      · exact alive
  | requestVote args now =>
      cases h
      simp only [requestVote, observeTerm]
      split_ifs <;> first | exact alive | exact follower rfl
  | appendEntries owner k args now =>
      cases h
      have met : (r.meetLeader args.received now).role ≠ .dead := by
        rcases meetLeader_cases alive args.received now with ⟨_, same, _⟩ | ⟨_, role, _⟩
        · rwa [same]
        · exact follower role
      have role := (r.quiet_appendEntries args.received now).role
      cases ho : (r.appendEntries args.received now).2 <;> exact role ▸ met
  | voteReturn k reply now =>
      obtain ⟨t, _, _, _, rfl⟩ := voteReturn_eq_some h
      rcases r.voteReply_cases t.savedCurrentTerm reply now with
        ⟨e, _⟩ | ⟨_, _, e⟩ | ⟨_, _, ⟨_, e⟩ | ⟨_, s, hs, e⟩⟩ <;> rw [e]
      · exact alive
      · exact follower rfl
      · exact alive
      · rw [hs]
        exact fun dead => RaftRole.noConfusion dead
  | appendReturn k reply now =>
      obtain ⟨t, args, _, _, _, _, rfl⟩ := appendReturn_eq_some h
      rcases r.appendReply_cases t.peer t.savedCurrentTerm t.nextIndex args.entries.length reply
        now with ⟨_, e⟩ | ⟨_, quiet⟩
      · rw [e]
        exact follower rfl
      · exact quiet.role ▸ alive
  | appendSend k junk =>
      obtain ⟨_, _, _, _, _, rfl⟩ := appendSend_eq_some h
      exact alive
  | callStep j now =>
      obtain ⟨call, p, hc, hp, rfl⟩ := callStep_eq_some h
      rcases advance_cases hp with ⟨_, e⟩ | ⟨_, quiet⟩
      · rw [e]
        exact follower rfl
      · exact quiet.role ▸ alive
  | _ =>
      rw [(calm_still (by exact True.intro) h).1]
      exact alive

theorem hear_bare (bare : r.Bare) (h : r.hear s = some r') : r'.Bare :=
  bare.changes (hear_changes (P := True) bare (fun _ => True.intro) h)

/-- At most one candidate has had the replica's vote of a term. -/
def VotesUnique (r : Replica) : Prop :=
  ∀ c c' t, .voted c t ∈ r.hist → .voted c' t ∈ r.hist → c = c'

theorem remembers_iff (p : Int × Int) :
    r.voter.Remembers (-1) p.1 p.2 ↔ ((p.2 = r.state.currentTerm → r.state.votedFor = -1) →
      ∀ v ∈ r.votes, v.2 = p.2 → v.1 = p.1) := by
  refine imp_congr_right fun _ => ⟨fun same v voted e => ?_, fun same c voted => ?_⟩
  · exact same v.1 (e ▸ mem_votes.mp voted)
  · exact same (c, p.2) (mem_votes.mpr voted) rfl

/-- Along a run the votes of each term are for one candidate just when none is given for
another over a forgotten one. -/
theorem votesUnique_iff {id : Int} {config : IntMap ServerInfo} {h : List (Replica × Stimulus)}
    (run : Run hear (.initialise id config) h r) : r.VotesUnique ↔ Meets NotForgotten h := by
  suffices inv : r.Bare ∧ (r.VotesUnique ↔ Meets NotForgotten h) ∧
      (Ballot.Unique r.voter.votes → r.voter.Sound (-1)) from inv.2.1
  induction run with
  | start =>
      have none (c t : Int) : .voted c t ∉ (initialise id config).hist := by
        rw [(initialise_fresh id config).hist]
        exact List.not_mem_nil
      have unique : (initialise id config).VotesUnique := fun c _ t voted => absurd voted (none c t)
      exact ⟨Cluster.initialise_bare id config,
        iff_of_true unique fun _ p => absurd p List.not_mem_nil,
        fun _ c voted => absurd voted (none c _)⟩
  | @next h r r' s _ heard ih =>
      obtain ⟨bare, iff, sound⟩ := ih
      have step := hear_voter bare heard
      refine ⟨hear_bare bare heard, ?_, step.sound sound⟩
      calc r'.VotesUnique
        _ ↔ r.VotesUnique ∧ ∀ p ∈ r.ballot s, r.voter.Remembers (-1) p.1 p.2 :=
            step.unique_iff sound
        _ ↔ r.VotesUnique ∧ r.NotForgotten s :=
            and_congr_right fun _ => forall₂_congr fun p _ => r.remembers_iff p
        _ ↔ Meets NotForgotten ((r, s) :: h) := by
            rw [iff, Meets.cons, and_comm]

/-- Replica 1 of three becomes leader of term 1. -/
def ownElection : List Stimulus :=
  [.electionTick 10 5, .voteSend 0, .voteReply 0 ⟨1, true⟩, .voteReturn 0 ⟨1, true⟩ 11]

theorem votesUnique_iff_ownElection :
    (outcome hear (.initialise 1 Cluster.threeServers) ownElection).2.VotesUnique ↔
      Meets NotForgotten (outcome hear (.initialise 1 Cluster.threeServers) ownElection).1 :=
  votesUnique_iff (outcome_run _ _ _)

/-- It has forgotten its own vote, and gives candidate 2 another one. -/
theorem not_votesUnique : ¬ ∀ (id : Int) (config : IntMap ServerInfo)
    (h : List (Replica × Stimulus)) (r : Replica),
    Run hear (.initialise id config) h r → r.VotesUnique := by
  intro always
  have unique := always 1 Cluster.threeServers _ _ (outcome_run _ _
    (ownElection ++ [.requestVote ⟨2, 1, -1, -1⟩ 12]))
  have own : Event.voted 1 1 ∈ (outcome hear (.initialise 1 Cluster.threeServers)
      (ownElection ++ [.requestVote ⟨2, 1, -1, -1⟩ 12])).2.hist := by
    rw [← mem_votes]
    decide +kernel
  have other : Event.voted 2 1 ∈ (outcome hear (.initialise 1 Cluster.threeServers)
      (ownElection ++ [.requestVote ⟨2, 1, -1, -1⟩ 12])).2.hist := by
    rw [← mem_votes]
    decide +kernel
  exact absurd (unique 1 2 1 own other) (by decide)

end Replica

namespace Cluster
variable {c c' : Cluster} {a : Action}

/-- What a run of one replica has been. -/
def Heard (r r' : Replica) : Prop :=
  ∃ h, Run Replica.hear r h r'

theorem Heard.refl (r : Replica) : Heard r r := ⟨[], .start⟩

theorem Heard.single {r r' : Replica} (s : Stimulus) (h : r.hear s = some r') : Heard r r' :=
  ⟨_, .next .start h⟩

theorem Heard.trans {r r' r'' : Replica} (h : Heard r r') (h' : Heard r' r'') : Heard r r'' := by
  obtain ⟨_, run⟩ := h
  obtain ⟨_, run'⟩ := h'
  exact ⟨_, run.trans run'⟩

/-- One replica hears something, the others nothing. -/
theorem set_heard {r : Int} {x : Replica} (q : Int) (h : Heard (c.node r) x) :
    Heard (c.node q) ((c.set r x).node q) :=
  set_cases (fun here => here ▸ h) fun _ => .refl _

theorem settleAppend_heard {p owner : Int} {k : Nat} {args : AppendEntriesParams} {x : Replica}
    {outcome : Replica.AppendOutcome} (q : Int)
    (h : Heard (c.node p) (x.settle owner k args outcome)) :
    Heard (c.node q) ((c.settleAppend p owner k args x outcome).node q) := by
  cases outcome with
  | replied ret =>
      exact (set_heard q h).trans (set_heard q (.single (.appendReply k ret) rfl))
  | suspended u e rest => exact set_heard q h

/-- A request that carries no promise is received as it was sent. -/
theorem received_self {args : AppendEntriesParams}
    (bare : ∀ e ∈ args.entries, e.op.promiseHandle = none) : args.received = args := by
  have same : (args.entries.map fun e => { e with op := e.op.withoutPromise }) = args.entries := by
    conv_rhs => rw [← List.map_id args.entries]
    refine List.map_congr_left fun e he => ?_
    have stripped : e.op.withoutPromise = e.op := by
      rw [RaftOp.withoutPromise, ← bare e he]
    rw [stripped, id]
  rw [AppendEntriesParams.received, same]

/-- A step of the cluster is something each replica hears. -/
theorem step_heard (hs : c.step a = some c') (bare : ∀ q, (c.node q).Bare) (q : Int) :
    Heard (c.node q) (c'.node q) := by
  have locally_heard {r : Int} (s : Stimulus) (h : c.locally r (·.hear s) = some c') :
      Heard (c.node q) (c'.node q) := by
    obtain ⟨x, hx, rfl⟩ := locally_eq_some.mp h
    exact set_heard q (.single s hx)
  have act := (Option.ite_none_right_eq_some.mp hs).2
  cases a with
  | voteDeliver r k now =>
      cases Transition.of_act act with
      | voteDeliver r k now t args ht ha hp =>
          exact (set_heard q (.single (.requestVote args now) rfl)).trans
            (set_heard q (.single (.voteReply k _) rfl))
  | appendDeliver r k now =>
      cases Transition.of_act act with
      | appendDeliver r k now t args ht ha hp =>
          refine settleAppend_heard q (.single (.appendEntries r k args now) ?_)
          rw [Replica.hear, received_self ((bare r).threads t (List.mem_of_getElem? ht) args ha)]
  | appendResume p j =>
      cases Transition.of_act act with
      | appendUpdate p j h u hj hu =>
          refine set_heard q (.single (.appendResume j) ?_)
          simp only [Replica.hear, Replica.appendResume, hj, hu]
      | appendResume p j h hj hu =>
          refine settleAppend_heard q (.single (.appendResume j) ?_)
          simp only [Replica.hear, Replica.appendResume, hj, hu]
  | electionTick r now timeout => exact locally_heard (.electionTick now timeout) act
  | voteSend r k => exact locally_heard (.voteSend k) act
  | voteReturn r k reply now => exact locally_heard (.voteReturn k reply now) act
  | voteFail r k => exact locally_heard (.voteFail k) act
  | raftImpl r => exact locally_heard .raftImpl act
  | appendSend r k junk => exact locally_heard (.appendSend k junk) act
  | appendReturn r k reply now => exact locally_heard (.appendReturn k reply now) act
  | appendFail r k => exact locally_heard (.appendFail k) act
  | executer r ok => exact locally_heard (.executer ok) act
  | clientGet r key => exact locally_heard (.client (.get key)) act
  | clientPut r key value => exact locally_heard (.client (.put key value)) act
  | addServer r args => exact locally_heard (.addServer args) act
  | removeServer r serverId => exact locally_heard (.removeServer serverId) act
  | callStep r j now => exact locally_heard (.callStep j now) act

/-- Every replica of a cluster runs as one that hears what the others send. -/
theorem node_heard {servers : List Int} {config : Int → IntMap ServerInfo}
    {h : List (Cluster × Action)} (run : Run step (launch servers config) h c) (q : Int) :
    Heard (.initialise q (config q)) (c.node q) := by
  induction run with
  | start => exact .refl _
  | next run hs ih =>
      exact ih.trans (step_heard hs (Cluster.bare run) q)

end Cluster
end OhMyDb
