import OhMyDb.Raft.Refinement

/-!
What the replicated log guarantees: log matching, sound commits, leader
completeness and one sequence of executed operations. Each is a property of the
abstract state that is read back through the refinement. None holds of all runs:
two leaders elected for one term are enough to break all four.
-/

namespace OhMyDb
open Execution
open LeaderLog (Held)

/-- Term and operation of the entry at an index. -/
def RaftState.entry? (s : RaftState) (i : Int) : Option (Int × Command) :=
  (s.logs.at? i).map fun e => (e.term, e.op.command)

theorem RaftState.entry?_eq {s s' : RaftState} {i : Int}
    (h : 0 ≤ i → (abstractLog s.logs.items)[i.toNat]? = (abstractLog s'.logs.items)[i.toNat]?) :
    s.entry? i = s'.entry? i := by
  unfold entry? LogVector.at?
  split
  · next pos =>
    have read (items : List LogEntry) : items[i.toNat]?.map (fun e => (e.term, e.op.command)) =
        (abstractLog items)[i.toNat]?.map fun e => (e.term, e.op) := by
      rw [abstractLog_getElem?, Option.map_map]
      rfl
    rw [read, read, h pos]
  · rfl

theorem RaftState.mem_entry? {s : RaftState} {i : Int} {e : Int × Command} (h : e ∈ s.entry? i) :
    0 ≤ i ∧ (abstractLog s.logs.items)[i.toNat]? = some ⟨e.1, e.2⟩ := by
  unfold entry? LogVector.at? at h
  split at h
  · next pos =>
    obtain ⟨x, hx, rfl⟩ := Option.mem_map.mp h
    rw [abstractLog_getElem?, show s.logs.items[i.toNat]? = some x from hx]
    exact ⟨pos, rfl⟩
  · cases h

/-- Logs that agree up to an index have the same entries there. -/
theorem entry?_of_take {s s' : RaftState} {n : ℕ}
    (h : (abstractLog s.logs.items).take n = (abstractLog s'.logs.items).take n) {i : Int}
    (lt : i < n) : s.entry? i = s'.entry? i := by
  refine RaftState.entry?_eq fun pos => ?_
  have at_ : (List.take n (abstractLog s.logs.items))[i.toNat]? =
      (List.take n (abstractLog s'.logs.items))[i.toNat]? := by rw [h]
  rwa [List.getElem?_take_of_lt (by omega), List.getElem?_take_of_lt (by omega)] at at_

/-- A log that holds what the leader has committed agrees with the leader's up to
`CommitIndex`. -/
theorem Commits.take_eq {b : AbstractState} {s : RaftState} {log : AbstractLog} {n : ℕ}
    (k : Commits b s) (le : (s.commitIndex + 1).toNat ≤ n)
    (held : (b.led s.currentTerm).take n <+: log) :
    (abstractLog s.logs.items).take (s.commitIndex + 1).toNat =
      log.take (s.commitIndex + 1).toNat := by
  have inside := k.inside
  have length : ((abstractLog s.logs.items).take (s.commitIndex + 1).toNat).length =
      (s.commitIndex + 1).toNat := by
    rw [List.length_take, abstractLog_length]
    simp only [LogVector.size] at inside
    omega
  have whole := (List.prefix_take_iff.mpr ⟨k.led, length.le.trans le⟩).trans held
  rw [List.prefix_iff_eq_take.mp whole, length]

namespace Replica
variable {r : Replica}

/-- The states in which reply handlers have moved `CommitIndex`. -/
def commits (r : Replica) : List RaftState :=
  r.hist.filterMap fun
    | .committed s => some s
    | _ => none

theorem mem_commits {s : RaftState} : s ∈ r.commits ↔ .committed s ∈ r.hist := by
  refine List.mem_filterMap_of_eq_iff fun e s => ?_
  cases e <;> simp

/-- The operations queued for the executer, with their indices. -/
def pushed (r : Replica) : List (Int × RaftOp) :=
  r.hist.filterMap fun
    | .pushedOut i op => some (i, op)
    | _ => none

theorem mem_pushed {i : Int} {op : RaftOp} : (i, op) ∈ r.pushed ↔ .pushedOut i op ∈ r.hist := by
  refine List.mem_filterMap_of_eq_iff (g := fun p : Int × RaftOp => Event.pushedOut p.1 p.2)
    fun e p => ?_
  cases e <;> simp [Prod.ext_iff]

end Replica

namespace Cluster
variable {config : IntMap ServerInfo} {h : List (Cluster × Action)} {c : Cluster}

/-! The properties. -/

/-- Two logs with entries of one term at one index agree up to there. -/
def LogsMatch (c : Cluster) : Prop :=
  ∀ r r' i, ∀ e ∈ (c.node r).state.entry? i, ∀ e' ∈ (c.node r').state.entry? i, e.1 = e'.1 →
    ∀ j ≤ i, (c.node r).state.entry? j = (c.node r').state.entry? j

/-- When a reply handler has moved `CommitIndex`, a majority of the configuration
has held the log up to it, each at some moment in the leader's term. -/
def CommitsHeld (h : List (Cluster × Action)) (c : Cluster) : Prop :=
  ∀ r s, .committed s ∈ (c.node r).hist →
    ∃ A, Quorum.IsMajority s.clusterConfig.keys.toFinset A ∧
      ∀ v ∈ A, ∃ c₀ ∈ c :: h.map (·.1), c₀.currentTerm v = s.currentTerm ∧
        ∀ i ≤ s.commitIndex, (c₀.node v).state.entry? i = s.entry? i

/-- What a leader has committed is in the log of every leader of a later term
when that is elected. -/
def LeadersComplete (c : Cluster) : Prop :=
  ∀ r r' s s', .committed s ∈ (c.node r).hist → .becameLeader s' ∈ (c.node r').hist →
    s.currentTerm < s'.currentTerm → ∀ i ≤ s.commitIndex, s'.entry? i = s.entry? i

/-- No two replicas execute different operations for an index. -/
def OneSequence (c : Cluster) : Prop :=
  ∀ r r' i op op', .pushedOut i op ∈ (c.node r).hist → .pushedOut i op' ∈ (c.node r').hist →
    op.command = op'.command

/-! Runs. -/

/-- A PUT goes through the queue of replica `r`, its log and the start of the
sender threads. -/
def submitPut (r key value : Int) : List Action :=
  [.clientPut r key value, .callStep r 0 0, .callStep r 0 0] ++ List.replicate 4 (.raftImpl r)

/-- Server 1 is elected, replicates a PUT to server 3 and commits it. Server 3
learns of the commit with the next heartbeat, and is then elected itself. -/
def replicatedPut : List Action :=
  plainElection ++ submitPut 1 5 7 ++
    [.appendSend 1 0 0, .appendDeliver 1 0 20, .appendReturn 1 0 ⟨1, true⟩ 21] ++
    List.replicate 5 (.raftImpl 1) ++
    [.appendSend 1 2 0, .appendDeliver 1 2 30,
      .electionTick 3 50 5, .voteSend 3 0, .voteDeliver 3 0 51, .voteReturn 3 0 ⟨2, true⟩ 52]

/-- The two leaders of term 1 both write index 0 and replicate it to server 3. It
keeps the entry it got first, and accepts the other one as present already: the
terms are the same. Later server 3 is elected for term 2. -/
def twoWriters : List Action :=
  twoLeaders ++ submitPut 1 1 1 ++ submitPut 2 1 2 ++
    [.appendSend 1 0 0, .appendDeliver 1 0 20, .appendReturn 1 0 ⟨1, true⟩ 21,
      .appendSend 2 0 0, .appendDeliver 2 0 20, .appendReturn 2 0 ⟨1, true⟩ 21,
      .electionTick 3 50 5, .voteSend 3 0, .voteDeliver 3 0 51, .voteReturn 3 0 ⟨2, true⟩ 52]

theorem fixedRun_twoWriters :
    FixedRun threeServers (outcome step (fixed threeServers) twoWriters).1
      (outcome step (fixed threeServers) twoWriters).2 :=
  fixedRun_outcome _ _ (by decide +kernel)

/-! The properties hold under what they rely on. -/

theorem logsMatch (f : FixedRun config h c) (noStepBack : Meets NoStepBack h)
    (thisTerm : Meets VotesOfThisTerm h) (single : Meets SingleVote h)
    (ops : Meets LeaderAppendsOps h) : LogsMatch c := by
  obtain ⟨b, reached, s⟩ := simulated f (show Meets Level.matching.Allows h from fun p hp =>
    ⟨noStepBack p hp, thisTerm p hp, single p hp, ops p hp, fun hl => absurd rfl hl,
      fun hl => absurd rfl hl, nofun⟩)
  intro r r' i e he e' he' same j hj
  obtain ⟨pos, at_⟩ := RaftState.mem_entry? he
  obtain ⟨_, at_'⟩ := RaftState.mem_entry? he'
  have genuine (n : Int) : LeaderLog.Genuine b (abstractLog (c.node n).state.logs.items) :=
    (s.simulates n).mirrors.log ▸ reached.matching.log n
  exact entry?_of_take ((genuine r).match (genuine r') at_ at_' same) (by omega)

theorem logsMatch_replicatedPut :
    ((outcome step (fixed threeServers) replicatedPut).2.node 3).state.logs.items ≠ [] ∧
    LogsMatch (outcome step (fixed threeServers) replicatedPut).2 :=
  ⟨by decide +kernel, logsMatch (fixedRun_outcome _ _ (by decide +kernel)) (by decide +kernel)
    (by decide +kernel) (by decide +kernel) (by decide +kernel)⟩

theorem not_logsMatch : ¬ ∀ (config : IntMap ServerInfo) (h : List (Cluster × Action))
    (c : Cluster), FixedRun config h c → LogsMatch c := by
  intro always
  have first : ((outcome step (fixed threeServers) twoWriters).2.node 1).state.entry? 0 =
      some (1, .put 1 1) := by decide +kernel
  have second : ((outcome step (fixed threeServers) twoWriters).2.node 2).state.entry? 0 =
      some (1, .put 1 2) := by decide +kernel
  have same := always _ _ _ fixedRun_twoWriters 1 2 0 _ first _ second rfl 0 le_rfl
  rw [first, second] at same
  exact absurd same (by decide)

/-- What the reply handlers rely on, in terms of one level. -/
theorem allows_counting (noStepBack : Meets NoStepBack h) (thisTerm : Meets VotesOfThisTerm h)
    (single : Meets SingleVote h) (appends : Meets LeaderAppends h)
    (replies : Meets RepliesOfThisTerm h) : Meets Level.counting.Allows h := by
  intro p hp
  refine ⟨noStepBack p hp, thisTerm p hp, single p hp, ?_, fun _ => appends p hp,
    fun _ => replies p hp, nofun⟩
  have leads := appends p hp
  revert leads
  cases p.2 <;> exact fun leads => by first | exact fun at_ _ => leads at_ | exact leads

theorem commitsHeld (f : FixedRun config h c) (noStepBack : Meets NoStepBack h)
    (thisTerm : Meets VotesOfThisTerm h) (single : Meets SingleVote h)
    (appends : Meets LeaderAppends h) (replies : Meets RepliesOfThisTerm h) :
    CommitsHeld h c := by
  obtain ⟨b, reached, sim⟩ := simulated f
    (allows_counting noStepBack thisTerm single appends replies)
  intro r s committed
  have k := (sim.simulates r).recalls.committed nofun s committed
  obtain ⟨A, sub, most, acked⟩ := k.acked
  refine ⟨A, ⟨sub, ?_⟩, fun v hv => ?_⟩
  · rw [List.toFinset_card_of_nodup s.clusterConfig.keys_nodup]
    exact most
  · obtain ⟨j, le, ack⟩ := acked v hv
    obtain ⟨c₀, mem, term, held⟩ := sim.witnessed nofun _ ack
    exact ⟨c₀, mem, term, fun i hi => (entry?_of_take (k.take_eq le held) (by omega)).symm⟩

theorem commitsHeld_replicatedPut :
    ((outcome step (fixed threeServers) replicatedPut).2.node 1).commits ≠ [] ∧
    CommitsHeld (outcome step (fixed threeServers) replicatedPut).1
      (outcome step (fixed threeServers) replicatedPut).2 :=
  ⟨by decide +kernel, commitsHeld (fixedRun_outcome _ _ (by decide +kernel)) (by decide +kernel)
    (by decide +kernel) (by decide +kernel) (by decide +kernel) (by decide +kernel)⟩

/-- Server 2 commits an entry no other server ever holds. -/
theorem not_commitsHeld : ¬ ∀ (config : IntMap ServerInfo) (h : List (Cluster × Action))
    (c : Cluster), FixedRun config h c → CommitsHeld h c := by
  intro always
  have committed : ∃ s ∈ ((outcome step (fixed threeServers) twoWriters).2.node 2).commits,
      s.currentTerm = 1 ∧ s.commitIndex = 0 ∧ s.entry? 0 = some (1, .put 1 2) ∧
        s.clusterConfig.keys = [1, 2, 3] := by
    decide +kernel
  have alone : ∀ c₀ ∈ (outcome step (fixed threeServers) twoWriters).2 ::
      (outcome step (fixed threeServers) twoWriters).1.map (·.1), ∀ v ∈ [1, 2, 3],
        (c₀.node v).state.entry? 0 = some (1, .put 1 2) → v = 2 := by
    decide +kernel
  obtain ⟨s, hs, term, commitIndex, entry, members⟩ := committed
  obtain ⟨A, ⟨sub, most⟩, held⟩ := always _ _ _ fixedRun_twoWriters 2 s
    (Replica.mem_commits.mp hs)
  rw [members] at sub most
  have two : A ⊆ {2} := by
    intro v hv
    obtain ⟨c₀, mem, _, same⟩ := held v hv
    exact Finset.mem_singleton.mpr (alone c₀ mem v (List.mem_toFinset.mp (sub hv))
      ((same 0 commitIndex.ge).trans entry))
  have := Finset.card_le_card two
  simp at this most
  omega

theorem leadersComplete (f : FixedRun config h c) (noStepBack : Meets NoStepBack h)
    (thisTerm : Meets VotesOfThisTerm h) (single : Meets SingleVote h)
    (appends : Meets LeaderAppends h) (replies : Meets RepliesOfThisTerm h) :
    LeadersComplete c := by
  obtain ⟨b, reached, sim⟩ := simulated f
    (allows_counting noStepBack thisTerm single appends replies)
  intro r r' s s' committed elected later i hi
  have k := (sim.simulates r).recalls.committed nofun s committed
  obtain ⟨leader, base⟩ := (sim.simulates r').recalls.elected s' elected
  have complete := (reached.sound nofun).retained.complete k.committed leader later
  rw [base] at complete
  exact (entry?_of_take (k.take_eq le_rfl complete) (by omega)).symm

theorem leadersComplete_replicatedPut :
    ((outcome step (fixed threeServers) replicatedPut).2.node 3).leaderships ≠ [] ∧
    LeadersComplete (outcome step (fixed threeServers) replicatedPut).2 :=
  ⟨by decide +kernel, leadersComplete (fixedRun_outcome _ _ (by decide +kernel))
    (by decide +kernel) (by decide +kernel) (by decide +kernel) (by decide +kernel)
    (by decide +kernel)⟩

/-- Server 3 is elected without the entry server 2 has committed. -/
theorem not_leadersComplete : ¬ ∀ (config : IntMap ServerInfo) (h : List (Cluster × Action))
    (c : Cluster), FixedRun config h c → LeadersComplete c := by
  intro always
  have committed : ∃ s ∈ ((outcome step (fixed threeServers) twoWriters).2.node 2).commits,
      s.currentTerm = 1 ∧ s.commitIndex = 0 ∧ s.entry? 0 = some (1, .put 1 2) := by
    decide +kernel
  have elected : ∃ s ∈ ((outcome step (fixed threeServers) twoWriters).2.node 3).leaderships,
      s.currentTerm = 2 ∧ s.entry? 0 = some (1, .put 1 1) := by
    decide +kernel
  obtain ⟨s, hs, term, commitIndex, entry⟩ := committed
  obtain ⟨s', hs', term', entry'⟩ := elected
  have same := always _ _ _ fixedRun_twoWriters 2 3 s s' (Replica.mem_commits.mp hs)
    (Replica.mem_leaderships.mp hs') (by omega) 0 commitIndex.ge
  rw [entry, entry'] at same
  exact absurd same (by decide)

theorem allows_executing (noStepBack : Meets NoStepBack h) (thisTerm : Meets VotesOfThisTerm h)
    (single : Meets SingleVote h) (appends : Meets LeaderAppends h)
    (replies : Meets RepliesOfThisTerm h) (sends : Meets LeaderSends h) :
    Meets Level.executing.Allows h := by
  have counting := allows_counting noStepBack thisTerm single appends replies
  exact fun p hp => { counting p hp with
    appends := fun _ => appends p hp
    replies := fun _ => replies p hp
    sends := fun _ => sends p hp }

theorem oneSequence (f : FixedRun config h c) (noStepBack : Meets NoStepBack h)
    (thisTerm : Meets VotesOfThisTerm h) (single : Meets SingleVote h)
    (appends : Meets LeaderAppends h) (replies : Meets RepliesOfThisTerm h)
    (sends : Meets LeaderSends h) : OneSequence c := by
  obtain ⟨b, reached, sim⟩ := simulated f
    (allows_executing noStepBack thisTerm single appends replies sends)
  intro r r' i op op' pushed pushed'
  obtain ⟨_, P, certified, _, e, he, hop⟩ := (sim.simulates r).recalls.pushedOut rfl i op pushed
  obtain ⟨_, P', certified', _, e', he', hop'⟩ :=
    (sim.simulates r').recalls.pushedOut rfl i op' pushed'
  have same := certified.entry certified' (reached.sound nofun) he he'
  rw [← hop, ← hop', same]

theorem oneSequence_replicatedPut :
    ((outcome step (fixed threeServers) replicatedPut).2.node 3).pushed ≠ [] ∧
    OneSequence (outcome step (fixed threeServers) replicatedPut).2 :=
  ⟨by decide +kernel, oneSequence (fixedRun_outcome _ _ (by decide +kernel)) (by decide +kernel)
    (by decide +kernel) (by decide +kernel) (by decide +kernel) (by decide +kernel)
    (by decide +kernel)⟩

theorem not_oneSequence : ¬ ∀ (config : IntMap ServerInfo) (h : List (Cluster × Action))
    (c : Cluster), FixedRun config h c → OneSequence c := by
  intro always
  have first : ∃ p ∈ ((outcome step (fixed threeServers) twoWriters).2.node 1).pushed,
      p.1 = 0 ∧ p.2.command = .put 1 1 := by
    decide +kernel
  have second : ∃ p ∈ ((outcome step (fixed threeServers) twoWriters).2.node 2).pushed,
      p.1 = 0 ∧ p.2.command = .put 1 2 := by
    decide +kernel
  obtain ⟨⟨i, op⟩, hop, rfl, put⟩ := first
  obtain ⟨⟨j, op'⟩, hop', rfl, put'⟩ := second
  have same := always _ _ _ fixedRun_twoWriters 1 2 0 op op' (Replica.mem_pushed.mp hop)
    (Replica.mem_pushed.mp hop')
  rw [put, put'] at same
  exact absurd same (by decide)

end Cluster
end OhMyDb
