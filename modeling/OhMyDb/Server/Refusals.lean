import OhMyDb.Storage.Directories

/-!
What is left behind by an RPC that is refused. `AppendEntries` notes its sender as the leader
before it has looked at the term, unlike the election timer, which it resets for a request
only that it is going to accept.
-/

namespace OhMyDb
open Execution

/-- A request of the Raft service, and what the clock reads when it is served. -/
inductive RaftRpc where
  | appendEntries (args : AppendEntriesParams) (now : Int)
  | requestVote (args : RequestVoteParams) (now : Int)

namespace Replica
variable {r r' : Replica} {rpc : RaftRpc}

/-- The `success` of the reply; a call that is suspended has accepted its entries. -/
def AppendOutcome.success : AppendOutcome → Bool
  | .replied ret => ret.success
  | .suspended _ _ _ => true

/-- The replica after the handler, and whether the request has been accepted. -/
def serve (r : Replica) : RaftRpc → Replica × Bool
  | .appendEntries args now => ((r.appendEntries args now).1, (r.appendEntries args now).2.success)
  | .requestVote args now => ((r.requestVote args now).1, (r.requestVote args now).2.voteGranted)

/-- The request is of an earlier term, or asks for a vote and is not of a member. -/
def Refuses (r : Replica) : RaftRpc → Prop
  | .appendEntries args _ => args.term < r.state.currentTerm
  | .requestVote args _ => args.term < r.state.currentTerm ∨ args.candidateId ∉ r.peers

instance (r : Replica) (rpc : RaftRpc) : Decidable (r.Refuses rpc) :=
  match rpc with
  | .appendEntries _ _ => inferInstanceAs (Decidable (_ < _))
  | .requestVote _ _ => inferInstanceAs (Decidable (_ ∨ _))

/-- An `AppendEntries` finds its sender noted as the leader, or the replica stopped. -/
def KeepsLeader (r : Replica) : RaftRpc → Prop
  | .appendEntries args _ => r.state.role = .dead ∨ args.leaderId = r.state.lastKnownLeaderId
  | .requestVote _ _ => True

instance (r : Replica) (rpc : RaftRpc) : Decidable (r.KeepsLeader rpc) :=
  match rpc with
  | .appendEntries _ _ => inferInstanceAs (Decidable (_ ∨ _))
  | .requestVote _ _ => inferInstanceAs (Decidable True)

/-- All an `AppendEntries` of an earlier term does is to note its sender. -/
theorem appendEntries_earlier {args : AppendEntriesParams} (now : Int)
    (earlier : args.term < r.state.currentTerm) (alive : r.state.role ≠ .dead) :
    r.appendEntries args now =
      ({ r with state := { r.state with lastKnownLeaderId := args.leaderId } },
        .replied { term := r.state.currentTerm, success := false }) := by
  have met : r.observeLeader args now =
      { r.state with lastKnownLeaderId := args.leaderId } := by
    unfold observeLeader
    simp only [ge_iff_le, Int.not_le.mpr earlier, if_false]
    rw [if_neg (Int.not_lt.mpr earlier.le), if_neg fun same => earlier.ne same.1]
  rw [appendEntries, if_neg alive, met]
  exact if_neg fun same => earlier.ne same.1

theorem appendEntries_dead {args : AppendEntriesParams} (now : Int)
    (earlier : args.term < r.state.currentTerm) (dead : r.state.role = .dead) :
    r.appendEntries args now = (r, .replied { term := 0, success := false }) := by
  rw [appendEntries, if_pos dead, if_neg (Int.not_le.mpr earlier)]

theorem requestVote_earlier {args : RequestVoteParams} (now : Int)
    (earlier : args.term < r.state.currentTerm) (stored : r.Stored) :
    r.requestVote args now = (r, { term := r.state.currentTerm, voteGranted := false }) := by
  have observed : r.observeTerm args.term now = r.state := if_neg (Int.not_lt.mpr earlier.le)
  have refused : ¬ r.grantsVote args now := fun grants => by
    have same := grants.1
    rw [observed] at same
    exact earlier.ne same
  have again : r.state.persist = r.state := by
    rw [RaftState.persist, show (⟨r.state.votedFor, r.state.currentTerm⟩ : PersistentStore) =
      r.state.pStore from stored.symm]
  simp only [requestVote, if_neg refused, observed, again]
  exact ite_self _

theorem serve_refuses (stored : r.Stored) (refuses : r.Refuses rpc) :
    (r.serve rpc).2 = false ∧ ((r.serve rpc).1.state = r.state ↔ r.KeepsLeader rpc) := by
  cases rpc with
  | appendEntries args now =>
      by_cases dead : r.state.role = .dead
      · rw [serve, appendEntries_dead now refuses dead]
        exact ⟨rfl, iff_of_true rfl (Or.inl dead)⟩
      · rw [serve, appendEntries_earlier now refuses dead]
        refine ⟨rfl, fun same => Or.inr (congrArg RaftState.lastKnownLeaderId same), ?_⟩
        rintro (stopped | known)
        · exact absurd stopped dead
        · show { r.state with lastKnownLeaderId := args.leaderId } = r.state
          rw [known]
  | requestVote args now =>
      rcases refuses with earlier | stranger
      · rw [serve, requestVote_earlier now earlier stored]
        exact ⟨rfl, iff_of_true rfl True.intro⟩
      · rw [serve, requestVote, if_pos stranger]
        exact ⟨rfl, iff_of_true rfl True.intro⟩

end Replica

namespace Hosts
variable {storeDir : Int → String} {s s' : Hosts}

/-- In every state that is reached, for every request. -/
theorem refusals_iff {servers : List Int} {withBootstrap : Int → Bool}
    {file : Int → List LogEntry} {directory : Int → Directory}
    {h : List (Hosts × Hosting)}
    (run : Run (step storeDir) (launch storeDir servers withBootstrap file directory) h s)
    {q : Int} {rpc : RaftRpc} (refuses : (s.cluster.node q).Refuses rpc) :
    ((s.cluster.node q).serve rpc).2 = false ∧
      (((s.cluster.node q).serve rpc).1.state = (s.cluster.node q).state ↔
        (s.cluster.node q).KeepsLeader rpc) := by
  have saved := run.always (I := Saved storeDir) launch_saved fun _ _ _ saved hs =>
    saved.preserved hs
  exact Replica.serve_refuses (saved.stored q) refuses

/-- Server 1 has been elected in term 1, and its first requests are on their way when server 3
is elected in term 2 with the vote of server 2, which it sends its own first request to. -/
def deposedLeader : List Hosting :=
  killedCandidate.dropLast ++ (([.raftImpl 1, .raftImpl 1, .raftImpl 1, .raftImpl 1,
    .appendSend 1 1 0, .electionTick 3 30 5, .voteSend 3 0, .voteDeliver 3 0 31,
    .voteReturn 3 0 ⟨2, true⟩ 32, .raftImpl 3, .raftImpl 3, .raftImpl 3, .raftImpl 3,
    .appendSend 3 0 0, .appendDeliver 3 0 40] : List Action).map fun a => .locked (.step a))

/-- Server 1 has asked for a vote of term 1 as well. -/
theorem refusals_iff_deposedLeader :
    let p := outcome (step fun _ => "")
      (launch (fun _ => "") [1, 2, 3] (fun _ => true) (fun _ => []) fun _ _ => none) deposedLeader
    let rpc : RaftRpc := .requestVote ⟨1, 1, -1, -1⟩ 50
    p.1.length = 28 ∧ (p.2.cluster.node 2).state.lastKnownLeaderId = 3 ∧
      ((p.2.cluster.node 2).serve rpc).2 = false ∧
      (((p.2.cluster.node 2).serve rpc).1.state = (p.2.cluster.node 2).state ↔
        (p.2.cluster.node 2).KeepsLeader rpc) :=
  ⟨by decide +kernel, by decide +kernel, refusals_iff (outcome_run _ _ _) (by decide +kernel)⟩

/-- The request server 1 has sent in term 1 reaches server 2, which sends clients to server 1
from then on. -/
theorem not_refusals : ¬ ∀ (storeDir : Int → String) (servers : List Int)
    (withBootstrap : Int → Bool) (file : Int → List LogEntry) (directory : Int → Directory)
    (h : List (Hosts × Hosting)) (s : Hosts) (q : Int) (rpc : RaftRpc),
    Run (step storeDir) (launch storeDir servers withBootstrap file directory) h s →
      (s.cluster.node q).Refuses rpc →
      ((s.cluster.node q).serve rpc).1.state = (s.cluster.node q).state := by
  intro unchanged
  have same := unchanged (fun _ => "") [1, 2, 3] (fun _ => true) (fun _ => []) (fun _ _ => none)
    _ _ 2 (.appendEntries ⟨1, 1, -1, -1, [], -1⟩ 50) (outcome_run _ _ deposedLeader)
    (by decide +kernel)
  exact absurd (congrArg RaftState.lastKnownLeaderId same) (by decide +kernel)

end Hosts
end OhMyDb
