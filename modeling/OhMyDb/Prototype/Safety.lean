import OhMyDb.Prototype.Refinement
import OhMyDb.Prototype.Counting

/-!
What the prototype guarantees while it keeps to the conditions: one leader for a term,
and commits that a majority stands behind. Without the conditions neither holds.
-/

namespace OhMyDb
namespace Prototype
open Execution
open LeaderLog (Evolves)
variable {α : Type}

namespace ConsensusModule

/-- The terms it has executed `startLeader` for. -/
def leaderships (cm : ConsensusModule α) : List Int :=
  cm.hist.filterMap fun
    | .startLeader term => some term
    | _ => none

theorem mem_leaderships {cm : ConsensusModule α} {t : Int} :
    t ∈ cm.leaderships ↔ .startLeader t ∈ cm.hist := by
  refine List.mem_filterMap_of_eq_iff fun ev t => ?_
  cases ev <;> simp

/-- Its commits. -/
def commits (cm : ConsensusModule α) : List (Commit α) :=
  cm.hist.filterMap fun
    | .commit c => some c
    | _ => none

theorem mem_commits {cm : ConsensusModule α} {c : Commit α} :
    c ∈ cm.commits ↔ .commit c ∈ cm.hist := by
  refine List.mem_filterMap_of_eq_iff fun ev t => ?_
  cases ev <;> simp

end ConsensusModule

/-- What the abstract state knows of a commit. -/
structure Commits (b : AbstractState α) (c : Commit α) : Prop where
  led : ∃ l, b.leader c.term = some l
  log : abstractLog c.log <+: b.led c.term
  inside : 0 ≤ c.commitIndex ∧ c.commitIndex < c.log.length
  acked : ∀ p ∈ c.counted, ∃ j : ℕ, c.commitIndex < j ∧ ⟨p, c.term, j⟩ ∈ b.acks

theorem Commits.evolve {b b' : AbstractState α} {c : Commit α} (k : Commits b c)
    (e : Evolves b b') : Commits b' c where
  led := k.led.imp fun l h => e.leader _ l h
  log := by
    obtain ⟨l, h⟩ := k.led
    exact k.log.trans (e.led _ l h)
  inside := k.inside
  acked p hp := by
    obtain ⟨j, hj, ha⟩ := k.acked p hp
    exact ⟨j, hj, e.acks ha⟩

theorem at?_eq {log log' : List (LogEntry α)} {j : Int}
    (h : 0 ≤ j → (abstractLog log)[j.toNat]? = (abstractLog log')[j.toNat]?) :
    at? log j = at? log' j := by
  unfold at?
  split
  · next pos =>
    have same := h pos
    rw [abstractLog, abstractLog, List.getElem?_map, List.getElem?_map] at same
    refine Option.map_injective (fun e e' h => ?_) same
    cases e
    cases e'
    cases h
    rfl
  · rfl

/-- A log that holds what the leader's log has up to `commitIndex`, and more. -/
theorem Commits.agree {b : AbstractState α} {c : Commit α} (k : Commits b c) {n : ℕ}
    (le : c.commitIndex < n) {log : List (LogEntry α)}
    (held : (b.led c.term).take n <+: abstractLog log) {j : Int} (hj : j ≤ c.commitIndex) :
    at? log j = at? c.log j := by
  refine at?_eq fun pos => ?_
  have inside := k.inside
  obtain ⟨rest, led⟩ := k.log
  have own : j.toNat < (abstractLog c.log).length := by rw [abstractLog_length]; omega
  have entry : (b.led c.term)[j.toNat]? = (abstractLog c.log)[j.toNat]? := by
    rw [← led, List.getElem?_append_left own]
  have there : j.toNat < ((b.led c.term).take n).length := by
    have := congrArg List.length led
    rw [List.length_append] at this
    rw [List.length_take]
    omega
  obtain ⟨rest', held⟩ := held
  rw [← entry, ← held, List.getElem?_append_left there, List.getElem?_take_of_lt (by omega)]

namespace Network
variable {n : Nat} {h : List (Network α × Action α)} {s s' : Network α} {a : Action α}
  {b b' : AbstractState α}

/-- No two modules execute `startLeader` for the same term. -/
def OneLeader (s : Network α) : Prop :=
  ∀ i j t, .startLeader t ∈ (s.node i).hist → .startLeader t ∈ (s.node j).hist → i = j

/-- Module 0 stands for election in term 1, and module 1 votes for it. -/
def firstElection : List (Action Unit) :=
  [.timerStep 0 0 0 150, .timerStep 0 0 0 150, .timerStep 0 0 150 150,
    .voteSend 0 0 0, .voteServe 0 0 0 160]

def plainElection : List (Action Unit) :=
  firstElection ++ [.voteReturn 0 0 0 170]

/-- The vote for term 1 arrives in term 2, where module 1 stands for election as well. -/
def lateVote : List (Action Unit) :=
  firstElection ++ [.timerStep 0 1 160 150, .timerStep 0 1 310 150, .voteReturn 0 0 0 311,
    .timerStep 1 1 160 150, .timerStep 1 1 320 150,
    .voteSend 1 0 1, .voteServe 1 0 1 330, .voteReturn 1 0 1 331]

theorem onePerTerm (run : Run Network.step (startUp α n) h s) (later : Meets RepliesLater h)
    (wins : Meets WinsInItsTerm h) : OneLeader s := by
  obtain ⟨b, r⟩ := simulated run later wins
  intro i j t hi hj
  have leader := (r.simulates i).led t hi
  rw [(r.simulates j).led t hj] at leader
  exact (Option.some.inj leader).symm

theorem onePerTerm_plainElection :
    ((outcome step (startUp Unit 3) plainElection).2.node 0).leaderships ≠ [] ∧
    OneLeader (outcome step (startUp Unit 3) plainElection).2 :=
  ⟨by decide +kernel, onePerTerm (outcome_run _ _ _) (by decide +kernel) (by decide +kernel)⟩

/-- Modules 0 and 1 both become leader of term 2. -/
theorem not_onePerTerm : ¬ ∀ (α : Type) (n : Nat) (h : List (Network α × Action α))
    (s : Network α), Run Network.step (startUp α n) h s → OneLeader s := by
  intro always
  have zero : 2 ∈ ((outcome step (startUp Unit 3) lateVote).2.node 0).leaderships := by
    decide +kernel
  have one : 2 ∈ ((outcome step (startUp Unit 3) lateVote).2.node 1).leaderships := by
    decide +kernel
  exact absurd (always Unit 3 _ _ (outcome_run _ _ _) 0 1 2
    (ConsensusModule.mem_leaderships.mp zero) (ConsensusModule.mem_leaderships.mp one)) (by decide)

/-! Commits. -/

/-- The moment of a commit, in the state the module is left in. -/
def Moment (s : Network α) (i : Int) (c : Commit α) : Prop :=
  (s.node i).currentTerm = c.term ∧ (s.node i).log = c.log ∧
    ∀ p ∈ c.counted, (s.node i).Replied p

/-- When `commitIndex` is set, a strict majority, the leader included, has held logs that
agree with the leader's up to there, each at some moment in the leader's term, and the
peers that are counted have replied successfully in the leadership. -/
def CommitsSound (past : List (Network α)) (s : Network α) : Prop :=
  ∀ i c, .commit c ∈ (s.node i).hist →
    (∃ A, Quorum.IsMajority s.servers.toFinset A ∧ i ∈ A ∧
      ∀ v ∈ A, ∃ s₀ ∈ s :: past, (s₀.node v).currentTerm = c.term ∧
        ∀ j ≤ c.commitIndex, at? (s₀.node v).log j = at? c.log j) ∧
    ∃ s₀ ∈ s :: past, s₀.Moment i c

theorem CommitsSound.mono {past past' : List (Network α)} (h : CommitsSound past s)
    (sub : past ⊆ past') : CommitsSound past' s := by
  intro i c hc
  obtain ⟨⟨A, majority, own, held⟩, s₀, mem, moment⟩ := h i c hc
  refine ⟨⟨A, majority, own, fun v hv => ?_⟩, s₀, List.cons_subset_cons s sub mem, moment⟩
  obtain ⟨s₁, mem, same⟩ := held v hv
  exact ⟨s₁, List.cons_subset_cons s sub mem, same⟩

/-- The peers that are counted, and the leader. -/
theorem Placed.majority (p : Placed n s) {i : Int} (server : i ∈ s.servers) {counted : List Int}
    (sub : counted.Sublist (s.node i).peerIds)
    (most : (s.node i).peerIds.length + 1 < (1 + counted.length) * 2) :
    Quorum.IsMajority s.servers.toFinset (insert i counted.toFinset) := by
  have apart : i ∉ counted := fun h => (p.mem_peerIds.mp (sub.subset h)).2 rfl
  have nodup : counted.Nodup := sub.nodup (p.peerIds i ▸ p.nodup.filter _)
  refine ⟨fun v hv => ?_, ?_⟩
  · rcases Finset.mem_insert.mp hv with rfl | hv
    · exact List.mem_toFinset.mpr server
    · exact List.mem_toFinset.mpr (p.mem_peerIds.mp (sub.subset (List.mem_toFinset.mp hv))).1
  · rw [Finset.card_insert_of_notMem (fun h => apart (List.mem_toFinset.mp h)),
      List.toFinset_card_of_nodup nodup, List.toFinset_card_of_nodup p.nodup]
    have := p.size server
    omega

/-- The commits of a run, in the abstract state it leads to. -/
structure Committed (b : AbstractState α) (h : List (Network α × Action α)) (s : Network α)
    (i : Int) (c : Commit α) : Prop where
  majority : Quorum.IsMajority s.servers.toFinset (insert i c.counted.toFinset)
  moment : ∃ s₀ ∈ s :: h.map (·.1), s₀.Moment i c
  commits : Commits b c

/-- What `matchIndex` has been set to, the peer has acknowledged in the term. -/
theorem acked_of_replied (r : Simulated n h s b) {i : Int} {p : Int}
    (tracks : (s.node i).Tracks) (lead : (s.node i).state = .leader)
    (replied : (s.node i).Replied p) : ∃ j : ℕ, get (s.node i).matchIndex p < j ∧
      ⟨p, (s.node i).currentTerm, j⟩ ∈ b.acks := by
  obtain ⟨hb, mem, args, matched⟩ := tracks.matched lead p replied
  have st := r.simulates i
  obtain ⟨m, sender, carries⟩ := st.sends.message hb mem args matched.sent
  have term : m.term = (s.node i).currentTerm := carries.term.trans matched.saved
  refine ⟨m.log.length, ?_, ?_⟩
  · have entries := congrArg List.length carries.encodes.entries
    rw [abstractLog_length, List.length_drop] at entries
    have inside := carries.encodes.inside
    rw [matched.matchIndex, entries]
    omega
  · rcases carries.acked _ matched.reply rfl with acked | past
    · rwa [matched.peer, term] at acked
    · rw [sender, st.mirrors.term, term] at past
      exact absurd past (lt_irrefl _)

/-- A new commit is backed by acknowledgements. -/
theorem committed_of_decides (r : Simulated n ((s, a) :: h) s' b') {k : Nat} {now : Int}
    {hb : Heartbeat α} {args : AppendEntriesArgs α} {i : Int} {c : Commit α}
    (p : Placed n s') (server : i ∈ s'.servers)
    (found : (s.node i).heartbeats[k]? = some hb)
    (answered : hb.reply = some ⟨hb.savedCurrentTerm, true⟩)
    (lead : (s.node i).state = .leader)
    (current : (s.node i).currentTerm = hb.savedCurrentTerm)
    (counts : s.CountsReplies (.heartbeatReturn i k now)) (tracks : (s'.node i).Tracks)
    (eq : s' = s.set i (((s.node i).updateHeartbeat k (Heartbeat.receive
      ⟨hb.savedCurrentTerm, true⟩)).advance hb args.entries.length).commitLoop)
    (decides : (((s.node i).updateHeartbeat k (Heartbeat.receive
      ⟨hb.savedCurrentTerm, true⟩)).advance hb args.entries.length).Decides c) :
    Committed b' ((s, a) :: h) s' i c := by
  obtain ⟨_, _, eq', _⟩ := ConsensusModule.commitLoop_eq (((s.node i).updateHeartbeat k
    (Heartbeat.receive ⟨hb.savedCurrentTerm, true⟩)).advance hb args.entries.length)
  have node : s'.node i = (((s.node i).updateHeartbeat k (Heartbeat.receive
      ⟨hb.savedCurrentTerm, true⟩)).advance hb args.entries.length).commitLoop := by
    rw [eq, set_node, Function.update_self]
  have term : (s'.node i).currentTerm = (s.node i).currentTerm := by rw [node, eq']; rfl
  have log : (s'.node i).log = (s.node i).log := by rw [node, eq']; rfl
  have leader : (s'.node i).state = .leader := by rw [node, eq']; exact lead
  have counted : c.counted = (s'.node i).counted c.commitIndex := by
    rw [node, eq']
    exact decides.counted
  have replied (q : Int) (hq : q ∈ c.counted) : (s'.node i).Replied q :=
    counted_replied found answered lead current counts decides hq term (by rw [node, eq']; rfl)
  have st := r.simulates i
  have termEq : c.term = (s'.node i).currentTerm := decides.term.trans term.symm
  have logEq : c.log = (s'.node i).log := decides.log.trans log.symm
  constructor
  case majority =>
    refine p.majority server (counted ▸ List.filter_sublist) ?_
    have most := decides.majority
    have peers : (s'.node i).peerIds = (s.node i).peerIds := by rw [node, eq']; rfl
    rwa [peers]
  case moment => exact ⟨s', List.mem_cons_self, termEq.symm, logEq.symm, replied⟩
  case commits =>
    constructor
    case led => exact ⟨i, termEq ▸ st.leader r.reached leader⟩
    case log =>
      have led := r.reached.sound.matching.leader_log i (by rw [st.mirrors.role, leader]; rfl)
      rw [st.mirrors.log, st.mirrors.term] at led
      rw [logEq, termEq, led]
    case inside => exact decides.log ▸ decides.inside
    case acked =>
      intro q hq
      obtain ⟨j, hj, ack⟩ := acked_of_replied r tracks leader (replied q hq)
      rw [counted] at hq
      have most := of_decide_eq_true (List.mem_filter.mp hq).2
      exact ⟨j, lt_of_le_of_lt most hj, termEq ▸ ack⟩

theorem Committed.evolve {i : Int} {c : Commit α} (k : Committed b h s i c)
    (e : Evolves b b') (servers : s'.servers = s.servers) :
    Committed b' ((s, a) :: h) s' i c where
  majority := servers ▸ k.majority
  moment := by
    obtain ⟨s₀, mem, moment⟩ := k.moment
    exact ⟨s₀, List.mem_cons_of_mem _ mem, moment⟩
  commits := k.commits.evolve e

theorem committed (run : Run Network.step (startUp α n) h s) (later : Meets RepliesLater h)
    (wins : Meets WinsInItsTerm h) (current : Meets SuccessesOfThisTerm h)
    (counts : Meets CountsReplies h) : ∃ b, Simulated n h s b ∧
      ∀ i c, .commit c ∈ (s.node i).hist → Committed b h s i c := by
  have keeps : Meets (fun s a => (s.RepliesLater a ∧ s.WinsInItsTerm a) ∧
      s.SuccessesOfThisTerm a ∧ s.CountsReplies a) h :=
    fun p hp => ⟨⟨later p hp, wins p hp⟩, current p hp, counts p hp⟩
  refine (run.invariant (I := fun h s => (∀ i, (s.node i).Tracks) ∧ ∃ b, Simulated n h s b ∧
      ∀ i c, .commit c ∈ (s.node i).hist → Committed b h s i c) keeps
    ⟨?_, _, .init n, fun _ _ h => absurd h List.not_mem_nil⟩ ?_).2
  · exact fun i => tracks_run .start (fun _ h => absurd h List.not_mem_nil)
      (fun _ h => absurd h List.not_mem_nil) i
  · rintro h s a s' ⟨tracks, b, r, known⟩ ⟨⟨later, wins⟩, current, counts⟩ hs
    obtain ⟨server, tr⟩ := Transition.of_step hs
    obtain ⟨b', e, r'⟩ := r.step later wins hs
    have tracks' := tracks_step tracks tr later current
    have p := Placed.run r.run
    have servers : s'.servers = s.servers := (p.step tr).servers.trans p.servers.symm
    refine ⟨tracks', b', r', fun i c hc => ?_⟩
    rcases tr.commit hc with old | ⟨k, now, hb, args, rfl, found, _, answered, lead, eq, decides⟩
    · exact (known i c old).evolve e servers
    · exact committed_of_decides r' (p.step tr) (servers ▸ server) found answered lead
        (current hb found _ answered lead rfl) counts (tracks' i) eq decides

/-- Where the entries of a request are those it was made with. -/
theorem commitsSound_of_run (run : Run Network.step (startUp α n) h s)
    (later : Meets RepliesLater h) (wins : Meets WinsInItsTerm h)
    (current : Meets SuccessesOfThisTerm h) (counts : Meets CountsReplies h) :
    CommitsSound (h.map (·.1)) s := by
  obtain ⟨b, r, all⟩ := committed run later wins current counts
  intro i c hc
  have k := all i c hc
  refine ⟨⟨_, k.majority, Finset.mem_insert_self _ _, fun v hv => ?_⟩, k.moment⟩
  rcases Finset.mem_insert.mp hv with rfl | hv
  · obtain ⟨s₀, mem, term, log, _⟩ := k.moment
    exact ⟨s₀, mem, term, fun _ _ => by rw [log]⟩
  · obtain ⟨j, hj, ack⟩ := k.commits.acked v (List.mem_toFinset.mp hv)
    obtain ⟨s₀, mem, term, held⟩ := r.witnessed _ ack
    exact ⟨s₀, mem, term, fun _ => k.commits.agree hj held⟩

/-- Module 0 is elected and hears from both peers, replicates an entry to module 1 and
commits it. -/
def plainCommit : List (Action Unit) :=
  plainElection ++ [.leaderSendHeartbeats 0,
    .heartbeatSend 0 0, .heartbeatServe 0 0 180, .heartbeatReturn 0 0 190,
    .heartbeatSend 0 1, .heartbeatServe 0 1 180, .heartbeatReturn 0 1 190,
    .submit 0 (), .leaderSendHeartbeats 0,
    .heartbeatSend 0 2, .heartbeatServe 0 2 230, .heartbeatReturn 0 2 240]

end Network
end Prototype
end OhMyDb
