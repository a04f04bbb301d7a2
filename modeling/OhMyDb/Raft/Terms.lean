import OhMyDb.Raft.Frame
import Mathlib.Algebra.Order.Group.Int
import Mathlib.Data.List.Pairwise

/-!
`CurrentTerm` along a run. `becomeFollower` assigns its argument whatever the
current term is. `AppendEntries` and `RequestVote` call it with a term that is
not behind; the two reply handlers compare with the term their request was sent
in, and a replica that has removed itself passes -1.
-/

namespace OhMyDb
open Execution

namespace Cluster

def currentTerm (c : Cluster) (r : Int) : Int :=
  (c.node r).state.currentTerm

/-- No call of `becomeFollower` takes the term back. -/
def NoStepBack (c : Cluster) : Action → Prop
  | .voteReturn r k reply _ => ∀ t ∈ (c.node r).voteThreads[k]?,
      (c.node r).state.role = .candidate → t.savedCurrentTerm < reply.term →
        c.currentTerm r ≤ reply.term
  | .appendReturn r k reply _ => ∀ t ∈ (c.node r).appendThreads[k]?,
      t.savedCurrentTerm < reply.term → c.currentTerm r ≤ reply.term
  | .callStep r j _ => ∀ call ∈ (c.node r).calls[j]?,
      (c.node r).StepsDown call → c.currentTerm r ≤ -1
  | _ => True

instance (c : Cluster) (a : Action) : Decidable (c.NoStepBack a) :=
  match a with
  | .voteReturn _ _ _ _ => inferInstanceAs (Decidable (∀ _, _ → _ → _ → _ ≤ _))
  | .appendReturn _ _ _ _ => inferInstanceAs (Decidable (∀ _, _ → _ → _ ≤ _))
  | .callStep _ _ _ => inferInstanceAs (Decidable (∀ _, _ → _ → _ ≤ _))
  | .electionTick _ _ _ | .voteSend _ _ | .voteDeliver _ _ _ | .voteFail _ _ | .raftImpl _
  | .appendSend _ _ _ | .appendDeliver _ _ _ | .appendResume _ _ | .appendFail _ _
  | .executer _ _ | .clientGet _ _ | .clientPut _ _ _ | .addServer _ _ | .removeServer _ _ =>
      inferInstanceAs (Decidable True)

end Cluster

namespace Replica

theorem electionTick_term (r : Replica) (now timeout : Int) :
    r.state.currentTerm ≤ (r.electionTick now timeout).state.currentTerm := by
  unfold electionTick
  split
  · exact Int.le_add_of_nonneg_right (by decide)
  · exact le_rfl

theorem observeTerm_term (r : Replica) (term now : Int) :
    r.state.currentTerm ≤ (r.observeTerm term now).currentTerm := by
  unfold observeTerm
  split
  · next h => exact h.le
  · exact le_rfl

theorem requestVote_term (r : Replica) (args : RequestVoteParams) (now : Int) :
    r.state.currentTerm ≤ (r.requestVote args now).1.state.currentTerm := by
  unfold requestVote
  split
  · exact le_rfl
  · simp only
    split <;> exact r.observeTerm_term args.term now

theorem observeLeader_term (r : Replica) (args : AppendEntriesParams) (now : Int) :
    (r.observeLeader args now).currentTerm = max r.state.currentTerm args.term := by
  simp only [observeLeader]
  split_ifs <;> simp only [RaftState.becomeFollower, RaftState.persist] at * <;> omega

/-- What the entry part of `AppendEntries` does to term and role. -/
theorem meetLeader_cases {r : Replica} (alive : r.state.role ≠ .dead)
    (args : AppendEntriesParams) (now : Int) :
    (args.term < r.state.currentTerm ∧ (r.meetLeader args now).role = r.state.role ∧
      (r.meetLeader args now).currentTerm = r.state.currentTerm) ∨
    (r.state.currentTerm ≤ args.term ∧ (r.meetLeader args now).role = .follower ∧
      (r.meetLeader args now).currentTerm = args.term) := by
  rw [meetLeader, if_neg alive]
  have term := r.observeLeader_term args now
  rcases lt_or_ge args.term r.state.currentTerm with earlier | later
  · refine Or.inl ⟨earlier, ?_, by rw [term, max_eq_left earlier.le]⟩
    simp only [observeLeader]
    rw [if_neg earlier.not_gt, if_neg fun h => earlier.ne h.1]
  · refine Or.inr ⟨later, ?_, by rw [term, max_eq_right later]⟩
    simp only [observeLeader]
    rcases later.lt_or_eq with lt | eq
    · simp [lt, RaftState.becomeFollower, RaftState.persist]
    · by_cases role : r.state.role = .follower
      · simp [eq, role]
      · simp [eq, role, RaftState.becomeFollower, RaftState.persist]

theorem appendEntries_term (r : Replica) (args : AppendEntriesParams) (now : Int) :
    r.state.currentTerm ≤ (r.appendEntries args now).1.state.currentTerm := by
  rw [(r.quiet_appendEntries args now).term]
  change _ ≤ (r.meetLeader args now).currentTerm
  unfold meetLeader
  split
  · exact le_rfl
  · rw [observeLeader_term]
    exact le_max_left _ _

/-- A vote reply changes the term only by stepping down. -/
theorem voteReply_term (r : Replica) (saved : Int) (reply : RequestVoteRet) (now : Int) :
    (r.voteReply saved reply now).state.currentTerm =
      if r.state.role = .candidate ∧ saved < reply.term then reply.term
      else r.state.currentTerm := by
  unfold voteReply
  by_cases hr : r.state.role = .candidate
  · by_cases ht : reply.term > saved
    · simp [hr, ht, RaftState.becomeFollower, RaftState.persist]
    · simp only [hr, ne_eq, not_true_eq_false, if_false, ht, true_and, gt_iff_lt] at *
      split_ifs <;> rfl
  · simp [hr]

end Replica

namespace Cluster

theorem pushVoteReply_state (c : Cluster) (r : Int) (k : Nat) (ret : RequestVoteRet) (q : Int) :
    ((c.pushVoteReply r k ret).node q).state = (c.node q).state :=
  pushVoteReply_same (·.state) (fun _ _ _ => rfl) r k ret q

theorem pushVoteReply_term (c : Cluster) (r : Int) (k : Nat) (ret : RequestVoteRet) :
    (c.pushVoteReply r k ret).currentTerm = c.currentTerm :=
  funext fun q => congrArg RaftState.currentTerm (pushVoteReply_state c r k ret q)

theorem set_term_le {c : Cluster} {r : Int} {x : Replica} :
    (∀ q, c.currentTerm q ≤ (c.set r x).currentTerm q) ↔
      c.currentTerm r ≤ x.state.currentTerm := by
  constructor
  · intro h
    simpa [currentTerm] using h r
  · intro h q
    by_cases e : q = r
    · subst e; simpa [currentTerm] using h
    · simp [currentTerm, e]

theorem settleAppend_state (c : Cluster) (p owner : Int) (k : Nat)
    (args : AppendEntriesParams) (x : Replica) (outcome : Replica.AppendOutcome) (q : Int) :
    ((c.settleAppend p owner k args x outcome).node q).state = ((c.set p x).node q).state :=
  settleAppend_same (·.state) (fun _ _ _ => rfl) (fun _ _ => rfl) p owner k args x outcome q

theorem settleAppend_term (c : Cluster) (p owner : Int) (k : Nat)
    (args : AppendEntriesParams) (x : Replica) (outcome : Replica.AppendOutcome) :
    (c.settleAppend p owner k args x outcome).currentTerm = (c.set p x).currentTerm :=
  funext fun q => congrArg RaftState.currentTerm (settleAppend_state c p owner k args x outcome q)

/-- A step keeps all terms from falling just when it takes none back. -/
theorem Transition.term_le_iff {c c' : Cluster} {a : Action} (h : Transition c a c') :
    (∀ r, c.currentTerm r ≤ c'.currentTerm r) ↔ c.NoStepBack a := by
  cases h with
  | electionTick r now timeout =>
      exact iff_of_true (set_term_le.mpr (Replica.electionTick_term _ _ _)) True.intro
  | voteSend r k t _ _ _ _ => exact iff_of_true (set_term_le.mpr le_rfl) True.intro
  | voteDeliver r k now t args _ _ _ =>
      rw [pushVoteReply_term]
      exact iff_of_true (set_term_le.mpr (Replica.requestVote_term _ _ _)) True.intro
  | voteReturn r k reply now t ht hf hr =>
      simp only [NoStepBack, ht, Option.mem_def, Option.some.injEq, forall_eq']
      rw [set_term_le]
      change _ ≤ ((c.node r).voteReply t.savedCurrentTerm reply now).state.currentTerm ↔ _
      rw [Replica.voteReply_term]
      split_ifs with down
      · exact ⟨fun h _ _ => h, fun h => h down.1 down.2⟩
      · exact iff_of_true le_rfl fun role term => absurd ⟨role, term⟩ down
  | voteFail r k t _ _ => exact iff_of_true (set_term_le.mpr le_rfl) True.intro
  | raftImpl r =>
      exact iff_of_true (set_term_le.mpr (Replica.keeps_raftImpl _).term.ge) True.intro
  | appendSend r k junk t _ _ _ _ => exact iff_of_true (set_term_le.mpr le_rfl) True.intro
  | appendDeliver r k now t args _ _ _ =>
      rw [settleAppend_term]
      exact iff_of_true (set_term_le.mpr (Replica.appendEntries_term _ _ _)) True.intro
  | appendUpdate p j h peer _ _ =>
      exact iff_of_true (set_term_le.mpr (Replica.keeps_updatePeers _ peer).term.ge) True.intro
  | appendResume p j h _ _ =>
      rw [settleAppend_term]
      refine iff_of_true (set_term_le.mpr ?_) True.intro
      rw [(Replica.quiet_appendRest _ _ _).term, (Replica.quiet_checkIndex _ _).term]
      exact le_rfl
  | appendReturn r k reply now t args ht ha hf hr =>
      simp only [NoStepBack, ht, Option.mem_def, Option.some.injEq, forall_eq']
      rw [set_term_le]
      change _ ≤ ((c.node r).appendReply t.peer t.savedCurrentTerm t.nextIndex
        args.entries.length reply now).state.currentTerm ↔ _
      rcases (c.node r).appendReply_cases t.peer t.savedCurrentTerm t.nextIndex
        args.entries.length reply now with ⟨later, e⟩ | ⟨notLater, keeps⟩
      · rw [e]
        exact ⟨fun h _ => h, fun h => h later⟩
      · rw [keeps.term]
        exact iff_of_true le_rfl fun later => absurd notLater (not_le.mpr later)
  | appendFail r k t _ _ => exact iff_of_true (set_term_le.mpr le_rfl) True.intro
  | executer r ok =>
      exact iff_of_true (set_term_le.mpr (Replica.quiet_executer _ ok).term.ge) True.intro
  | clientGet r key => exact iff_of_true (set_term_le.mpr le_rfl) True.intro
  | clientPut r key value => exact iff_of_true (set_term_le.mpr le_rfl) True.intro
  | addServer r args =>
      exact iff_of_true (set_term_le.mpr (Replica.quiet_addServer _ args).term.ge) True.intro
  | removeServer r serverId =>
      exact iff_of_true (set_term_le.mpr (Replica.quiet_removeServer _ serverId).term.ge)
        True.intro
  | callStep r j now call p hc hp =>
      simp only [NoStepBack, hc, Option.mem_def, Option.some.injEq, forall_eq']
      rw [set_term_le]
      change _ ≤ p.1.state.currentTerm ↔ _
      rcases Replica.advance_cases hp with ⟨down, e⟩ | ⟨up, keeps⟩
      · rw [e]
        exact ⟨fun h _ => h, fun h => h down⟩
      · rw [keeps.term]
        exact iff_of_true le_rfl fun down => absurd down up

/-- No replica's term falls between any two states of the run. -/
def TermsMonotone (h : List (Cluster × Action)) (c : Cluster) : Prop :=
  (c :: h.map (·.1)).Pairwise fun later earlier =>
    ∀ r, earlier.currentTerm r ≤ later.currentTerm r

/-- Along a run the terms never fall just when no step takes one back. -/
theorem termsMonotone_iff {servers : List Int} {config : Int → IntMap ServerInfo}
    {h : List (Cluster × Action)} {c : Cluster} (run : Run step (launch servers config) h c) :
    TermsMonotone h c ↔ Meets NoStepBack h := by
  induction run with
  | start => simp [TermsMonotone, Meets]
  | next _ hs ih =>
      have trans : IsTrans Cluster fun later earlier : Cluster =>
          ∀ r, earlier.currentTerm r ≤ later.currentTerm r :=
        ⟨fun _ _ _ h h' r => (h' r).trans (h r)⟩
      simp only [TermsMonotone, List.map_cons] at ih ⊢
      rw [List.pairwise_cons_cons_iff_of_trans, ih, Meets.cons,
        (Transition.of_step hs).2.term_le_iff]

theorem TermsMonotone.le_last {h : List (Cluster × Action)} {c : Cluster}
    (m : TermsMonotone h c) (r : Int) : ∀ p ∈ h, p.1.currentTerm r ≤ c.currentTerm r :=
  fun _ hp => List.rel_of_pairwise_cons m (List.mem_map_of_mem hp) r

/-- Three servers, for the runs that are written out. -/
def threeServers : IntMap ServerInfo :=
  [1, 2, 3].foldr (fun i m => m.insert i { ServerInfo.zero with id := i }) ∅

/-- Server 1 runs in term 1, and server 2 refuses it after a vote for server 3 in
term 2. Before the refusal arrives server 1 hears of term 2 and runs in term 3. -/
def overtakenRefusal : List Action :=
  [.electionTick 1 10 5, .voteSend 1 0, .voteDeliver 1 0 11, .voteSend 1 1,
    .electionTick 3 20 5, .voteSend 3 0, .voteDeliver 3 0 21, .voteDeliver 1 1 22,
    .voteSend 3 1, .voteDeliver 3 1 23, .electionTick 1 40 5]

theorem termsMonotone_iff_overtakenRefusal :
    TermsMonotone (outcome step (launch threeServers.keys fun _ => threeServers)
      overtakenRefusal).1 (outcome step (launch threeServers.keys fun _ => threeServers)
      overtakenRefusal).2 :=
  (termsMonotone_iff (outcome_run _ _ _)).mpr (by decide +kernel)

/-- The refusal takes server 1 from term 3 back to term 2. -/
theorem not_termsMonotone : ¬ ∀ (servers : List Int) (config : Int → IntMap ServerInfo)
    (h : List (Cluster × Action)) (c : Cluster),
    Run step (launch servers config) h c → TermsMonotone h c := by
  intro always
  have le := (always _ _ _ _ (outcome_run step (launch threeServers.keys fun _ => threeServers)
    (overtakenRefusal ++ [.voteReturn 1 1 ⟨2, false⟩ 41]))).le_last 1
  revert le
  decide +kernel

end Cluster
end OhMyDb
