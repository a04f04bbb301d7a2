import OhMyDb.Prototype.Tally
import OhMyDb.Lib.LeaderLog.Merging
import OhMyDb.Lib.LeaderLog.Evolution

/-!
How the prototype stands for a state of leader-based replication. Terms, roles and logs
are the same. Votes are not: a candidate that meets the leader of its term gives its own
vote up and may vote once more. Such a vote comes too late to elect anybody, and the
abstract state does not record it.
-/

namespace OhMyDb
namespace Prototype
open Execution
open LeaderLog (Steps Voting Matching Sound Evolves Elsewhere Held Message)
open Network
variable {α : Type}

abbrev AbstractState (α : Type) := LeaderLog.State Int α

abbrev quorums (servers : List Int) : Quorum.System Int :=
  Quorum.majorities servers.toFinset

/-- The abstract states that are reached. -/
abbrev Reached (servers : List Int) (b : AbstractState α) : Prop :=
  Steps (quorums servers) .pastLeader .init b

namespace Reached
variable {servers : List Int} {b b' : AbstractState α}

theorem sound (h : Reached servers b) : Sound (quorums servers) b :=
  Sound.init.steps h

theorem evolves (h : Reached servers b) (steps : Steps (quorums servers) .pastLeader b b') :
    Evolves b b' :=
  steps.evolves h.sound.voting h.sound.matching

end Reached

def NodeState.abstract : NodeState → LeaderLog.Role
  | .follower | .unknown => .follower
  | .candidate => .candidate
  | .leader => .leader

def abstractLog (log : List (LogEntry α)) : LeaderLog.Log α :=
  log.map fun e => ⟨e.term, e.command⟩

@[simp] theorem abstractLog_length (log : List (LogEntry α)) :
    (abstractLog log).length = log.length :=
  List.length_map _

@[simp] theorem abstractLog_append (log log' : List (LogEntry α)) :
    abstractLog (log ++ log') = abstractLog log ++ abstractLog log' :=
  List.map_append

theorem abstractLog_take (log : List (LogEntry α)) (n : Nat) :
    abstractLog (log.take n) = (abstractLog log).take n :=
  List.map_take

theorem abstractLog_drop (log : List (LogEntry α)) (n : Nat) :
    abstractLog (log.drop n) = (abstractLog log).drop n :=
  List.map_drop

theorem lastTerm_abstract (log : List (LogEntry α)) :
    LeaderLog.lastTerm (abstractLog log) = lastLogTerm log := by
  rw [LeaderLog.lastTerm, abstractLog, List.getLast?_map, lastLogTerm]
  cases log.getLast? <;> rfl

theorem matching_agreeing (log entries : List (LogEntry α)) :
    matching log entries = LeaderLog.agreeing (abstractLog log) (abstractLog entries) := by
  fun_induction matching log entries with
  | case1 l ls e es differ => exact (if_neg differ).symm
  | case2 l ls e es same ih =>
      rw [ih]
      exact (if_pos (not_not.mp same)).symm
  | case3 log entries h =>
      cases log with
      | nil => rfl
      | cons l ls =>
          cases entries with
          | nil => rfl
          | cons e es => exact (h l ls e es rfl rfl).elim

theorem merge_mergeAt (log entries : List (LogEntry α)) (n : Nat) :
    abstractLog (merge log n entries) =
      LeaderLog.mergeAt (abstractLog log) n (abstractLog entries) := by
  rw [LeaderLog.mergeAt, ← abstractLog_drop, ← matching_agreeing, abstractLog_length]
  unfold merge
  dsimp only
  split
  · rw [abstractLog_append, abstractLog_take, abstractLog_drop]
  · rfl

/-- The arguments carry the log from `ni` on, and the term of the entry before. -/
structure Encodes (log : LeaderLog.Log α) (ni : Int) (args : AppendEntriesArgs α) : Prop where
  inside : 0 ≤ ni ∧ ni ≤ log.length
  prevLogIndex : args.prevLogIndex = ni - 1
  prevLogTerm : ∀ e ∈ log[(ni - 1).toNat]?, 0 ≤ ni - 1 → args.prevLogTerm = e.term
  entries : abstractLog args.entries = log.drop ni.toNat

/-! What one module shares with the abstract state. -/

structure Mirrors (b : AbstractState α) (i : Int) (cm : ConsensusModule α) : Prop where
  term : b.term i = cm.currentTerm
  role : b.role i = cm.state.abstract
  log : b.log i = abstractLog cm.log

/-- Module `i` was a candidate in the term, has met its leader, and may vote again. -/
structure Freed (b : AbstractState α) (i t : Int) : Prop where
  own : ∃ w ∈ b.votes, w.voter = i ∧ w.candidate = i ∧ w.term = t
  leader : ∃ l, b.leader t = some l ∧ l ≠ i

/-- The votes it has given, and the one it is bound to. -/
structure Votes (b : AbstractState α) (i : Int) (cm : ConsensusModule α) : Prop where
  voted : ∀ q t, .voted q t ∈ cm.hist →
    (∃ w ∈ b.votes, w.voter = i ∧ w.candidate = q ∧ w.term = t) ∨ (q ≠ i ∧ Freed b i t)
  votedFor : ∀ w ∈ b.votes, w.voter = i → w.term = cm.currentTerm →
    cm.votedFor = w.candidate ∨ (w.candidate = i ∧ Freed b i w.term)
  candidate : cm.state = .candidate → cm.votedFor = i
  named : ∀ w ∈ b.votes, w.voter = i → w.candidate ≠ -1

/-- The requests of its elections. -/
def Requested (b : AbstractState α) (i : Int) (els : List Election) : Prop :=
  ∀ el ∈ els, ∀ call ∈ el.calls, ∀ args ∈ call.args, ∃ q ∈ b.requests, q.candidate = i ∧
    q.term = args.term ∧ args.lastLogIndex = (q.log.length : Int) - 1 ∧
    args.lastLogTerm = LeaderLog.lastTerm q.log

/-- The message behind what a goroutine of `leaderSendHeartbeats` has sent. -/
structure Carries (b : AbstractState α) (hb : Heartbeat α) (args : AppendEntriesArgs α)
    (m : Message Int α) : Prop where
  mem : m ∈ b.messages
  term : m.term = hb.savedCurrentTerm
  argsTerm : args.term = hb.savedCurrentTerm
  encodes : Encodes m.log hb.ni args
  acked : ∀ reply ∈ hb.reply, reply.success = true →
    ⟨hb.peerId, m.term, m.log.length⟩ ∈ b.acks ∨ m.term < b.term m.sender

/-- Its heartbeats. -/
structure Sends (b : AbstractState α) (i : Int) (hbs : List (Heartbeat α)) : Prop where
  message : ∀ hb ∈ hbs, ∀ args ∈ hb.args, ∃ m, m.sender = i ∧ Carries b hb args m
  unsent : ∀ hb ∈ hbs, hb.args = none → hb.reply = none
  leader : ∀ hb ∈ hbs, b.leader hb.savedCurrentTerm = some i
  peer : ∀ hb ∈ hbs, hb.peerId ≠ i

/-- Module `cm` as node `i`. -/
structure Stands (b : AbstractState α) (i : Int) (cm : ConsensusModule α) : Prop where
  mirrors : Mirrors b i cm
  votes : Votes b i cm
  requested : Requested b i cm.elections
  sends : Sends b i cm.heartbeats
  led : ∀ t, .startLeader t ∈ cm.hist → b.leader t = some i

/-- The simulation relation. -/
def Simulates (s : Network α) (b : AbstractState α) : Prop :=
  ∀ i, Stands b i (s.node i)

section Preservation
variable {b b' : AbstractState α} {i j : Int} {cm cm' : ConsensusModule α} {s : Network α}

theorem Mirrors.elsewhere (m : Mirrors b i cm) (el : Elsewhere j b b') (h : i ≠ j) :
    Mirrors b' i cm where
  term := (el.term i h).trans m.term
  role := (el.role i h).trans m.role
  log := (el.log i h).trans m.log

theorem Freed.mono {t : Int} (f : Freed b i t) (e : Evolves b b') (votes : b.votes ⊆ b'.votes) :
    Freed b' i t where
  own := by
    obtain ⟨w, hw, facts⟩ := f.own
    exact ⟨w, votes hw, facts⟩
  leader := by
    obtain ⟨l, leader, other⟩ := f.leader
    exact ⟨l, e.leader t l leader, other⟩

theorem Freed.elsewhere {t : Int} (f : Freed b i t) (e : Evolves b b') (el : Elsewhere j b b')
    (h : i ≠ j) : Freed b' i t where
  own := by
    obtain ⟨w, hw, rfl, facts⟩ := f.own
    exact ⟨w, (el.votes w h).mpr hw, rfl, facts⟩
  leader := by
    obtain ⟨l, leader, other⟩ := f.leader
    exact ⟨l, e.leader t l leader, other⟩

theorem Votes.elsewhere (v : Votes b i cm) (e : Evolves b b') (el : Elsewhere j b b')
    (h : i ≠ j) : Votes b' i cm where
  voted q t hq := by
    rcases v.voted q t hq with ⟨w, hw, rfl, facts⟩ | ⟨other, freed⟩
    · exact Or.inl ⟨w, (el.votes w h).mpr hw, rfl, facts⟩
    · exact Or.inr ⟨other, freed.elsewhere e el h⟩
  votedFor w hw voter term := by
    have old := (el.votes w (voter.trans_ne h)).mp hw
    exact (v.votedFor w old voter term).imp_right fun ⟨own, freed⟩ =>
      ⟨own, freed.elsewhere e el h⟩
  candidate := v.candidate
  named w hw voter := v.named w ((el.votes w (voter.trans_ne h)).mp hw) voter

theorem Votes.evolve (v : Votes b i cm) (e : Evolves b b') (votes : b'.votes = b.votes) :
    Votes b' i cm where
  voted q t h := by
    rw [votes]
    exact (v.voted q t h).imp_right fun ⟨other, freed⟩ => ⟨other, freed.mono e votes.ge⟩
  votedFor w hw voter term :=
    (v.votedFor w (votes ▸ hw) voter term).imp_right fun ⟨own, freed⟩ =>
      ⟨own, freed.mono e votes.ge⟩
  candidate := v.candidate
  named w hw := v.named w (votes ▸ hw)

theorem Requested.evolve {els : List Election} (rq : Requested b i els) (e : Evolves b b') :
    Requested b' i els := by
  intro el hel call hc args ha
  obtain ⟨q, hq, facts⟩ := rq el hel call hc args ha
  exact ⟨q, e.requests hq, facts⟩

theorem Carries.evolve {hb : Heartbeat α} {args : AppendEntriesArgs α} {m : Message Int α}
    (k : Carries b hb args m) (e : Evolves b b') : Carries b' hb args m where
  mem := e.messages k.mem
  term := k.term
  argsTerm := k.argsTerm
  encodes := k.encodes
  acked reply hr ok := (k.acked reply hr ok).imp (fun h => e.acks h) fun h => h.trans_le (e.term _)

theorem Sends.evolve {hbs : List (Heartbeat α)} (sd : Sends b i hbs) (e : Evolves b b') :
    Sends b' i hbs where
  message hb hm args ha := by
    obtain ⟨m, sender, carries⟩ := sd.message hb hm args ha
    exact ⟨m, sender, carries.evolve e⟩
  unsent := sd.unsent
  leader hb hm := e.leader _ _ (sd.leader hb hm)
  peer := sd.peer

theorem Stands.elsewhere (st : Stands b i cm) (e : Evolves b b') (el : Elsewhere j b b')
    (h : i ≠ j) : Stands b' i cm where
  mirrors := st.mirrors.elsewhere el h
  votes := st.votes.elsewhere e el h
  requested := st.requested.evolve e
  sends := st.sends.evolve e
  led t ht := e.leader t i (st.led t ht)

theorem Simulates.set (sim : Simulates s b) (e : Evolves b b') (el : Elsewhere i b b')
    (st : Stands b' i cm) : Simulates (s.set i cm) b' := by
  intro j
  by_cases h : j = i
  · subst h
    simpa using st
  · simpa [h] using (sim j).elsewhere e el h

/-- A step the abstract state does not notice. -/
theorem Simulates.setSame (sim : Simulates s b) (st : Stands b i cm) :
    Simulates (s.set i cm) b :=
  sim.set (.refl b) (.refl i b) st

/-- What votes depend on. -/
theorem Votes.congr (v : Votes b i cm) (term : cm'.currentTerm = cm.currentTerm)
    (votedFor : cm'.votedFor = cm.votedFor)
    (candidate : cm'.state = .candidate → cm.state = .candidate)
    (hist : ∀ q t, .voted q t ∈ cm'.hist → .voted q t ∈ cm.hist) : Votes b i cm' where
  voted q t h := v.voted q t (hist q t h)
  votedFor w hw voter same := by
    rw [votedFor]
    exact v.votedFor w hw voter (same.trans term)
  candidate h := votedFor.trans (v.candidate (candidate h))
  named := v.named

theorem Requested.modify {els : List Election} {e k : Nat} {g : VoteCall → VoteCall}
    (rq : Requested b i els) (same : ∀ call, (g call).args = call.args) :
    Requested b i (els.modify e fun el => { el with calls := el.calls.modify k g }) := by
  intro el hel call hc args ha
  rcases List.mem_or_eq_of_mem_modify hel with hel | ⟨el, he, rfl⟩
  · exact rq el hel call hc args ha
  · have mem := List.mem_of_getElem? he
    rcases List.mem_or_eq_of_mem_modify hc with hc | ⟨call, hk, rfl⟩
    · exact rq el mem call hc args ha
    · exact rq el mem call (List.mem_of_getElem? hk) args (same call ▸ ha)

/-- A goroutine ends. -/
theorem Sends.finish {hbs : List (Heartbeat α)} {k : Nat} {g : Heartbeat α → Heartbeat α}
    (sd : Sends b i hbs) (ends : ∀ hb, ∃ received, g hb =
      { hb with returned := true, received := received }) : Sends b i (hbs.modify k g) := by
  constructor
  all_goals intro hb' hm
  all_goals rcases List.mem_or_eq_of_mem_modify hm with hm | ⟨hb, hk, rfl⟩
  · exact sd.message hb' hm
  · intro args ha
    obtain ⟨_, eq⟩ := ends hb
    rw [eq] at ha ⊢
    obtain ⟨m, sender, carries⟩ := sd.message hb (List.mem_of_getElem? hk) args ha
    exact ⟨m, sender, { carries with }⟩
  · exact sd.unsent hb' hm
  · obtain ⟨_, eq⟩ := ends hb
    rw [eq]
    exact sd.unsent hb (List.mem_of_getElem? hk)
  · exact sd.leader hb' hm
  · obtain ⟨_, eq⟩ := ends hb
    rw [eq]
    exact sd.leader hb (List.mem_of_getElem? hk)
  · exact sd.peer hb' hm
  · obtain ⟨_, eq⟩ := ends hb
    rw [eq]
    exact sd.peer hb (List.mem_of_getElem? hk)

end Preservation

/-- The modules after `startUp` stand for the initial state. -/
theorem Simulates.startUp (n : Nat) : Simulates (startUp α n) .init := by
  intro i
  constructor
  case mirrors => exact ⟨rfl, rfl, rfl⟩
  case votes =>
    exact ⟨fun _ _ h => absurd h List.not_mem_nil, fun _ h => absurd h (Set.notMem_empty _),
      (fun h => by cases h), fun _ h => absurd h (Set.notMem_empty _)⟩
  case requested => exact fun _ h => absurd h List.not_mem_nil
  case sends =>
    exact ⟨fun _ h => absurd h List.not_mem_nil, fun _ h => absurd h List.not_mem_nil,
      fun _ h => absurd h List.not_mem_nil, fun _ h => absurd h List.not_mem_nil⟩
  case led => exact fun _ h => absurd h List.not_mem_nil

end Prototype
end OhMyDb
