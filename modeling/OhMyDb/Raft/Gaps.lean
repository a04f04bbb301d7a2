import OhMyDb.Raft.Suspended

/-!
The gaps in the append loops. While `ApplyAddServer` or `ApplyRemoveServer` has let go of
`state_.Mut`, other handlers find a log that is half written. They are serialisable, and
every entry comes to its index, as long as what they decide by is not in the other half.
-/

namespace OhMyDb
open Execution

/-- `CurrentTerm` is changed. -/
def Core.LeavesTerm (c : Core) : Handler → Prop
  | .electionTick now timeout => c.role = .follower ∧ now - c.electionResetEvent > timeout
  | .requestVote args _ => c.Follows args
  | .voteReply saved reply _ =>
      c.role = .candidate ∧ reply.term > saved ∧ reply.term ≠ c.currentTerm
  | .appendEntries args _ => c.role ≠ .dead ∧ args.term > c.currentTerm
  | .appendReply _ saved _ _ reply _ => reply.term > saved ∧ reply.term ≠ c.currentTerm
  | .stepDown _ => c.currentTerm ≠ -1
  | _ => False

instance (c : Core) (x : Handler) : Decidable (c.LeavesTerm x) :=
  match x with
  | .electionTick _ _ => inferInstanceAs (Decidable (_ ∧ _))
  | .requestVote args _ => inferInstanceAs (Decidable (c.Follows args))
  | .voteReply _ _ _ => inferInstanceAs (Decidable (_ ∧ _ ∧ _))
  | .appendEntries _ _ => inferInstanceAs (Decidable (_ ∧ _))
  | .appendReply _ _ _ _ _ _ => inferInstanceAs (Decidable (_ ∧ _))
  | .stepDown _ => inferInstanceAs (Decidable (_ ≠ _))
  | .runLeaderOneIter _ | .addServer _ | .removeServer _ | .leaderAddr =>
      inferInstanceAs (Decidable False)

/-- The address of the leader is looked up. -/
def Core.Asks (c : Core) : Handler → Prop
  | .addServer args => c.role ≠ .leader ∨ args.serverId ∈ c.clusterConfig
  | .removeServer serverId => c.role ≠ .leader ∨ serverId ∉ c.clusterConfig
  | .leaderAddr => True
  | _ => False

instance (c : Core) (x : Handler) : Decidable (c.Asks x) :=
  match x with
  | .addServer _ | .removeServer _ => inferInstanceAs (Decidable (_ ∨ _))
  | .leaderAddr => inferInstanceAs (Decidable True)
  | .electionTick _ _ | .requestVote _ _ | .voteReply _ _ _ | .appendEntries _ _
  | .runLeaderOneIter _ | .appendReply _ _ _ _ _ _ | .stepDown _ =>
      inferInstanceAs (Decidable False)

def AppendHandler.suspension (h : AppendHandler) : Suspension where
  update := h.update
  rest := h.rest.map AppendLogEntry.entry

def RaftThread.suspension (c : Core) : RaftThread → Option Suspension
  | .updatingPeers _ update rest => some { update := some update, rest := c.leaderEntries rest }
  | .relocking _ rest => some { update := none, rest := c.leaderEntries rest }
  | _ => none

namespace Replica

/-- The calls that stand in a gap. -/
def suspensions (r : Replica) : List Suspension :=
  r.handlers.map AppendHandler.suspension ++ (r.raftThread.suspension r.core).toList

/-- What handlers would decide by if the calls in a gap had gone on to their ends. -/
def whole (r : Replica) : Core := r.core.complete r.suspensions

/-- The entries that are still to be pushed. -/
def missing (r : Replica) : List LogEntry := r.suspensions.flatMap (·.rest)

/-- The handler a stimulus begins. -/
def begins (r : Replica) : Stimulus → Option Handler
  | .electionTick now timeout => some (.electionTick now timeout)
  | .requestVote args now => some (.requestVote args now)
  | .appendEntries _ _ args now => some (.appendEntries args.received now)
  | .voteReturn k reply now => r.voteThreads[k]?.map fun t =>
      .voteReply t.savedCurrentTerm reply now
  | .appendReturn k reply now => r.appendThreads[k]?.bind fun t => t.args.map fun args =>
      .appendReply t.peer t.savedCurrentTerm t.nextIndex args.entries.length reply now
  | .raftImpl => if r.raftThread = .isLeader then some (.runLeaderOneIter r.raftIn) else none
  | .addServer args => some (.addServer args)
  | .removeServer serverId => some (.removeServer serverId)
  | .callStep j now => r.calls[j]?.bind fun call =>
      if r.StepsDown call then some (.stepDown now)
      else if r.LooksUp call then some .leaderAddr
      else none
  | _ => none

/-- No call of `AppendEntries` is in a gap, and no `runLeaderOneIter` that has entries left or
is to update a peer these entries are about. -/
def Clear (r : Replica) (es : List LogEntry) : Prop :=
  r.handlers.length = 0 ∧ r.raftThread.rest = [] ∧
    ∀ u ∈ peerUpdates r.id es, u.peer ∉ r.pending

instance (r : Replica) (es : List LogEntry) : Decidable (r.Clear es) :=
  inferInstanceAs (Decidable (_ ∧ _ ∧ _))

/-- A handler decides by what is there as it would by the whole. One that pushes entries
finds nobody else at it. -/
def Decides (r : Replica) : Handler → Prop
  | .requestVote args _ =>
      (r.core.Follows args ↔ r.whole.Follows args) ∧ (r.core.Grants args ↔ r.whole.Grants args)
  | .voteReply saved reply _ => r.state.role = .candidate → Wins saved reply →
      (r.core.Majority ↔ r.whole.Majority)
  | .appendEntries args _ => r.core.Merges args ∨ r.whole.Merges args → r.Clear (r.core.news args)
  | .runLeaderOneIter ops => ops ≠ [] → r.Clear (r.core.leaderEntries ops)
  | x => (r.core.Asks x ↔ r.whole.Asks x) ∧ (r.core.Asks x →
      ∀ e ∈ r.missing, e.op.command ≠ .removeServer r.state.lastKnownLeaderId)

instance (r : Replica) (x : Handler) : Decidable (r.Decides x) :=
  match x with
  | .requestVote _ _ => inferInstanceAs (Decidable ((_ ↔ _) ∧ (_ ↔ _)))
  | .voteReply _ _ _ => inferInstanceAs (Decidable (_ → _ → (_ ↔ _)))
  | .appendEntries _ _ => inferInstanceAs (Decidable (_ ∨ _ → _))
  | .runLeaderOneIter _ => inferInstanceAs (Decidable (_ ≠ _ → _))
  | .electionTick _ _ | .appendReply _ _ _ _ _ _ | .addServer _ | .removeServer _ | .leaderAddr
  | .stepDown _ => inferInstanceAs (Decidable ((_ ↔ _) ∧ (_ → _)))

/-- What comes in a gap of a loop of `runLeaderOneIter` leaves it the term of its entries. -/
def TermStays (r : Replica) (x : Handler) : Prop :=
  r.raftThread.rest ≠ [] → ¬ r.core.LeavesTerm x

instance (r : Replica) (x : Handler) : Decidable (r.TermStays x) :=
  inferInstanceAs (Decidable (_ ≠ _ → _))

/-- Nothing is decided by one half of what a handler writes. -/
def Undisturbed (r : Replica) (s : Stimulus) : Prop :=
  ∀ x ∈ r.begins s, r.Decides x ∧ r.TermStays x

instance (r : Replica) (s : Stimulus) : Decidable (r.Undisturbed s) :=
  inferInstanceAs (Decidable (∀ x ∈ r.begins s, _))

/-- `Logs`, `CurrentTerm`, `VotedFor` and `Role`. -/
def raftFields (r : Replica) : List LogEntry × Int × Int × RaftRole :=
  (r.state.logs.items, r.state.currentTerm, r.state.votedFor, r.state.role)

end Replica

/-! A handler that decides alike comes to the same before what is suspended goes on. -/

namespace Core
variable {c : Core} {ws : List Suspension}

theorem electionTick_complete (now timeout : Int) :
    (c.complete ws).electionTick now timeout = (c.electionTick now timeout).complete ws := by
  by_cases due : c.role = .follower ∧ now - c.electionResetEvent > timeout
  · have due' : (c.complete ws).role = .follower ∧
        now - (c.complete ws).electionResetEvent > timeout := due
    rw [electionTick, electionTick, if_pos due, if_pos due']
    rfl
  · have waits : ¬ ((c.complete ws).role = .follower ∧
        now - (c.complete ws).electionResetEvent > timeout) := due
    rw [electionTick, electionTick, if_neg due, if_neg waits]

theorem requestVote_complete {args : RequestVoteParams} (now : Int)
    (follows : c.Follows args ↔ (c.complete ws).Follows args)
    (grants : c.Grants args ↔ (c.complete ws).Grants args) :
    (c.complete ws).requestVote args now = (c.requestVote args now).complete ws := by
  simp only [requestVote, ← follows, ← grants]
  split_ifs <;> rfl

theorem voteReply_complete {saved : Int} {reply : RequestVoteRet} (now : Int)
    (majority : c.role = .candidate → Replica.Wins saved reply →
      (c.Majority ↔ (c.complete ws).Majority)) :
    (c.complete ws).voteReply saved reply now = (c.voteReply saved reply now).complete ws := by
  by_cases role : c.role ≠ .candidate
  · have role' : (c.complete ws).role ≠ .candidate := role
    rw [voteReply, voteReply, if_pos role, if_pos role']
  have role' : ¬ (c.complete ws).role ≠ .candidate := role
  rw [voteReply, voteReply, if_neg role, if_neg role']
  by_cases later : reply.term > saved
  · rw [if_pos later, if_pos later]
    rfl
  rw [if_neg later, if_neg later]
  by_cases wins : Replica.Wins saved reply
  · have same := majority (not_not.mp role) wins
    simp only [if_pos wins, ← same]
    split <;> rfl
  · rw [if_neg wins, if_neg wins]

theorem meetLeader_complete (args : AppendEntriesParams) (now : Int) :
    (c.complete ws).meetLeader args now = (c.meetLeader args now).complete ws := by
  by_cases dead : c.role = .dead
  · have dead' : (c.complete ws).role = .dead := dead
    rw [meetLeader, meetLeader, if_pos dead, if_pos dead']
    rfl
  have alive : (c.complete ws).role ≠ .dead := dead
  rw [meetLeader, meetLeader, if_neg dead, if_neg alive]
  by_cases follows : args.term > c.currentTerm ∨ (args.term = c.currentTerm ∧ c.role ≠ .follower)
  · have follows' : args.term > (c.complete ws).currentTerm ∨
        (args.term = (c.complete ws).currentTerm ∧ (c.complete ws).role ≠ .follower) := follows
    rw [if_pos follows, if_pos follows']
    rfl
  · have stays : ¬ (args.term > (c.complete ws).currentTerm ∨
        (args.term = (c.complete ws).currentTerm ∧ (c.complete ws).role ≠ .follower)) := follows
    rw [if_neg follows, if_neg stays]
    rfl

theorem enrolled_insert {p : Int} {es : List LogEntry}
    (stays : ∀ e ∈ es, e.op.command ≠ .removeServer p) (s : Finset Int) :
    enrolled (insert p s) es = insert p (enrolled s es) := by
  induction es generalizing s with
  | nil => rfl
  | cons e es ih =>
      have first : e.op.command.enroll (insert p s) = insert p (e.op.command.enroll s) := by
        have other := stays e List.mem_cons_self
        cases h : e.op.command with
        | addServer info => exact Finset.insert_comm _ _ _
        | removeServer serverId =>
            rw [h] at other
            exact Finset.erase_insert_of_ne fun same => other (by rw [same])
        | get | put => rfl
      rw [enrolled, List.foldl_cons, first]
      exact ih (fun e' he => stays e' (List.mem_cons_of_mem _ he)) _

theorem leaderAddr_complete (stays : ∀ e ∈ ws.flatMap (·.rest),
    e.op.command ≠ .removeServer c.lastKnownLeaderId) :
    (c.complete ws).leaderAddr = c.leaderAddr.complete ws := by
  have config := enrolled_insert stays c.clusterConfig
  simp only [complete, leaderAddr, push, connect, config]

theorem meetLeader_term {args : AppendEntriesParams} (now : Int)
    (stays : ¬ (c.role ≠ .dead ∧ args.term > c.currentTerm)) :
    (c.meetLeader args now).currentTerm = c.currentTerm := by
  by_cases dead : c.role = .dead
  · rw [meetLeader, if_pos dead]
  rw [meetLeader, if_neg dead]
  split
  · next follows =>
    rcases follows with later | ⟨same, _⟩
    · exact absurd ⟨dead, later⟩ stays
    · exact same
  · rfl

theorem meetLeader_id (args : AppendEntriesParams) (now : Int) :
    (c.meetLeader args now).id = c.id := by
  simp only [meetLeader]
  split_ifs <;> rfl

theorem meetLeader_logs (args : AppendEntriesParams) (now : Int) :
    (c.meetLeader args now).logs = c.logs := by
  simp only [meetLeader]
  split_ifs <;> rfl

theorem run_id (x : Handler) : (c.run x).id = c.id := by
  cases x with
  | electionTick now timeout =>
      simp only [run, electionTick]
      split <;> rfl
  | requestVote args now =>
      simp only [run, requestVote]
      split_ifs <;> rfl
  | voteReply saved reply now =>
      simp only [run, voteReply]
      split_ifs <;> rfl
  | appendEntries args now =>
      simp only [run, appendEntries]
      split <;> exact c.meetLeader_id args now
  | appendReply | addServer | removeServer =>
      simp only [run]
      split <;> rfl
  | runLeaderOneIter | leaderAddr | stepDown => rfl

theorem run_term {x : Handler} (stays : ¬ c.LeavesTerm x) :
    (c.run x).currentTerm = c.currentTerm := by
  cases x with
  | electionTick now timeout => exact congrArg currentTerm (if_neg stays)
  | requestVote args now =>
      have here : ¬ c.Follows args := stays
      simp only [run, requestVote, if_neg here]
      split <;> rfl
  | voteReply saved reply now =>
      simp only [run, voteReply]
      split_ifs with role later
      · rfl
      · by_contra ne
        exact stays ⟨not_not.mp role, later, ne⟩
      all_goals rfl
  | appendEntries args now =>
      simp only [run, appendEntries]
      split <;> exact meetLeader_term now stays
  | appendReply _ saved _ _ reply now =>
      simp only [run]
      split
      · next later =>
        by_contra ne
        exact stays ⟨later, ne⟩
      · rfl
  | addServer | removeServer =>
      simp only [run]
      split <;> rfl
  | stepDown now => exact (not_not.mp stays).symm
  | runLeaderOneIter | leaderAddr => rfl

end Core

namespace Replica
variable {r r' : Replica} {s : Stimulus}

theorem suspension_congr {c d : Core} {t : RaftThread}
    (term : t.rest ≠ [] → d.currentTerm = c.currentTerm) : t.suspension d = t.suspension c := by
  have entries (ops : List RaftOp) (h : ops ≠ [] → d.currentTerm = c.currentTerm) :
      d.leaderEntries ops = c.leaderEntries ops := by
    cases ops with
    | nil => rfl
    | cons op ops => simp only [Core.leaderEntries, h (List.cons_ne_nil _ _)]
  cases t with
  | updatingPeers saved u rest =>
      simp only [RaftThread.suspension, entries rest term]
  | relocking saved rest =>
      simp only [RaftThread.suspension, entries rest term]
  | _ => rfl

/-- No two calls in a gap get in each other's way. -/
def Orderly (r : Replica) : Prop := r.suspensions.Pairwise (Suspension.Apart r.id)

/-- The step is the handler it begins, seen from when nobody is in a gap any more. -/
def Serial (r : Replica) (x : Option Handler) (r' : Replica) : Prop :=
  r'.Orderly ∧ r'.whole = x.toList.foldl Core.run r.whole

theorem Serial.keep (orderly : r.Orderly) (core : r'.core = r.core)
    (suspensions : r'.suspensions = r.suspensions) : r.Serial none r' := by
  have id : r'.id = r.id := congrArg Core.id core
  refine ⟨?_, ?_⟩
  · rw [Orderly, suspensions, id]
    exact orderly
  · rw [whole, suspensions, core]
    rfl

theorem Serial.complete {x : Option Handler} {d : Core} (core : r'.core = d)
    (h : r'.suspensions.Pairwise (Suspension.Apart d.id) ∧
      d.complete r'.suspensions = x.toList.foldl Core.run r.whole) : r.Serial x r' := by
  subst core
  exact h

theorem Serial.handle (orderly : r.Orderly) {x : Handler} (core : r'.core = r.core.run x)
    (handlers : r'.handlers = r.handlers) (thread : r'.raftThread = r.raftThread)
    (stays : r.TermStays x) (same : r.whole.run x = (r.core.run x).complete r.suspensions) :
    r.Serial (some x) r' := by
  have id : r'.id = r.id := (congrArg Core.id core).trans (Core.run_id x)
  have suspensions : r'.suspensions = r.suspensions := by
    have raft : r'.raftThread.suspension r'.core = r.raftThread.suspension r.core := by
      rw [thread, core]
      exact suspension_congr fun rest => Core.run_term (stays rest)
    rw [Replica.suspensions, handlers, raft]
    rfl
  refine ⟨?_, ?_⟩
  · rw [Orderly, suspensions, id]
    exact orderly
  · rw [whole, suspensions, core]
    exact same.symm

/-- A handler that pushes nothing comes to the same seen as a whole. -/
theorem Decides.same {x : Handler} (decides : r.Decides x)
    (pushes : ∀ args now, x ≠ .appendEntries args now) (leads : ∀ ops, x ≠ .runLeaderOneIter ops) :
    r.whole.run x = (r.core.run x).complete r.suspensions := by
  have asks {asked other : Prop} [Decidable asked] [Decidable other] (same : asked ↔ other)
      (stays : asked → ∀ e ∈ r.missing, e.op.command ≠ .removeServer r.state.lastKnownLeaderId) :
      (if other then r.whole.leaderAddr else r.whole) =
        (if asked then r.core.leaderAddr else r.core).complete r.suspensions := by
    by_cases h : asked
    · rw [if_pos h, if_pos (same.mp h)]
      exact Core.leaderAddr_complete (stays h)
    · rw [if_neg h, if_neg fun h' => h (same.mpr h')]
      rfl
  cases x with
  | electionTick now timeout => exact Core.electionTick_complete now timeout
  | requestVote args now => exact Core.requestVote_complete now decides.1 decides.2
  | voteReply saved reply now => exact Core.voteReply_complete now decides
  | appendReply _ saved _ _ reply now =>
      simp only [Core.run]
      split <;> rfl
  | addServer args => exact asks decides.1 decides.2
  | removeServer serverId => exact asks decides.1 decides.2
  | leaderAddr => exact Core.leaderAddr_complete (decides.2 True.intro)
  | stepDown now => rfl
  | appendEntries args now => exact absurd rfl (pushes args now)
  | runLeaderOneIter ops => exact absurd rfl (leads ops)

/-- Where a call of `AppendEntries` has come to, among those in a gap. -/
theorem settle_suspensions (owner : Int) (k : Nat) (args : AppendEntriesParams) (x : Replica)
    (outcome : AppendOutcome) : (settle owner k args x outcome).suspensions.Perm
      ((Core.suspended outcome.stop).toList ++ x.suspensions) := by
  cases outcome with
  | replied ret => exact .refl _
  | suspended u e rest =>
      have joined : (settle owner k args x (.suspended u e rest)).suspensions =
          x.handlers.map AppendHandler.suspension ++
            ({ update := some u, rest := rest.map AppendLogEntry.entry } : Suspension) ::
            (x.raftThread.suspension x.core).toList := by
        simp only [suspensions, settle, List.map_append, List.append_assoc]
        rfl
      rw [joined]
      exact List.perm_middle

/-- The loop of `runLeaderOneIter`, up to its end or to where it lets go of the mutex. -/
theorem leaderAppend_stops (ops : List RaftOp) (r : Replica) (saved : Int) : ∃ stop,
    r.core.Stops (r.core.leaderEntries ops) (r.leaderAppend saved ops).core stop ∧
      (r.leaderAppend saved ops).raftThread.suspension (r.leaderAppend saved ops).core =
        Core.suspended stop ∧
      (r.leaderAppend saved ops).handlers = r.handlers := by
  induction ops generalizing r with
  | nil => exact ⟨none, ⟨rfl, r.core_persistLogs.trans r.core.push_nil.symm⟩, rfl, rfl⟩
  | cons op ops ih =>
      have first : r.core.leaderEntries (op :: ops) =
          ⟨r.state.currentTerm, op⟩ :: r.core.leaderEntries ops := rfl
      rw [leaderAppend_cons, first]
      cases h : op.command.peerUpdate r.id with
      | some u =>
          have stops : r.core.Stops (⟨r.state.currentTerm, op⟩ :: r.core.leaderEntries ops) _ _ :=
            Core.Stops.here (show op.command.peerUpdate r.core.id = some u from h)
          rw [← core_append] at stops
          exact ⟨_, stops, rfl, rfl⟩
      | none =>
          obtain ⟨stop, stops, thread, handlers⟩ := ih (r.append ⟨r.state.currentTerm, op⟩)
          rw [core_append] at stops
          exact ⟨stop, .cons h stops, thread, handlers⟩

theorem settle_core (owner : Int) (k : Nat) (args : AppendEntriesParams) (x : Replica)
    (outcome : AppendOutcome) : (settle owner k args x outcome).core = x.core := by
  cases outcome <;> rfl

/-- Who is in a gap has nothing left to do but an update of another peer. -/
theorem Clear.suspensions {es : List LogEntry} (clear : r.Clear es) : ∀ w ∈ r.suspensions,
    w.rest = [] ∧ ∀ u ∈ w.due r.id, ∀ v ∈ peerUpdates r.id es, u.peer ≠ v.peer := by
  obtain ⟨nobody, done, other⟩ := clear
  intro w hw
  rw [Replica.suspensions, List.length_eq_zero_iff.mp nobody] at hw
  cases t : r.raftThread with
  | updatingPeers saved u rest =>
      rw [t] at hw done
      obtain rfl : rest = [] := done
      obtain rfl := List.mem_singleton.mp hw
      refine ⟨rfl, fun u' hu' v hv same => other v hv ?_⟩
      obtain rfl := List.mem_singleton.mp hu'
      rw [pending, t]
      exact List.mem_map.mpr ⟨u', List.mem_cons_self, same⟩
  | relocking saved rest =>
      rw [t] at hw done
      obtain rfl : rest = [] := done
      obtain rfl := List.mem_singleton.mp hw
      exact ⟨rfl, fun u' hu' => absurd hu' List.not_mem_nil⟩
  | _ =>
      rw [t] at hw
      exact absurd hw List.not_mem_nil

theorem Clear.whole_eq {es : List LogEntry} (clear : r.Clear es) :
    r.whole = r.core.connect (r.suspensions.flatMap (·.due r.id)) :=
  Core.complete_done fun w hw => (clear.suspensions w hw).1

/-- A call of `AppendEntries` that pushes finds nobody else at it. -/
theorem Serial.appendEntries (orderly : r.Orderly) (owner : Int) (k : Nat)
    {args : AppendEntriesParams} {now : Int} (decides : r.Decides (.appendEntries args now))
    (stays : r.TermStays (.appendEntries args now)) :
    r.Serial (some (.appendEntries args now)) ((r.appendEntries args now).1.settle owner k args
      (r.appendEntries args now).2) := by
  have quiet := r.quiet_appendEntries args now
  rcases r.appendEntries_stops args now with ⟨merges, stops⟩ | ⟨still, same, none⟩
  · have clear := decides (Or.inl merges)
    have merges' : r.whole.Merges args := by
      rw [clear.whole_eq]
      exact merges
    have here : (r.appendEntries args now).1.suspensions = r.suspensions := by
      have raft : (r.appendEntries args now).1.raftThread.suspension
          (r.appendEntries args now).1.core =
          r.raftThread.suspension r.core := by
        rw [quiet.raftThread]
        exact suspension_congr fun ne => absurd clear.2.1 ne
      rw [Replica.suspensions, quiet.handlers, raft]
      rfl
    have id : ((r.core.meetLeader args now).truncate (logInsertIndex r.core.logVector args)).id =
        r.id := r.core.meetLeader_id args now
    have joined := settle_suspensions owner k args (r.appendEntries args now).1
      (r.appendEntries args now).2
    rw [here] at joined
    obtain ⟨apart, eq⟩ := stops.enter (fun w hw => (clear.suspensions w hw).1)
      (by rw [id]; exact orderly)
      (by rw [id]; exact fun w hw => (clear.suspensions w hw).2)
      (joined.trans List.perm_append_comm)
    have met : r.whole.meetLeader args now = (r.core.meetLeader args now).complete r.suspensions :=
      Core.meetLeader_complete args now
    have logs : r.whole.logVector = r.core.logVector := by
      rw [clear.whole_eq]
      rfl
    have cut (n : ℕ) : ((r.core.meetLeader args now).complete r.suspensions).truncate n =
        ((r.core.meetLeader args now).truncate n).complete r.suspensions := by
      rw [Core.complete_done fun w hw => (clear.suspensions w hw).1,
        Core.complete_done fun w hw => (clear.suspensions w hw).1]
      rfl
    refine .complete (settle_core _ _ _ _ _) ⟨apart, ?_⟩
    rw [eq, Option.toList_some, List.foldl_cons, List.foldl_nil, Core.run, Core.appendEntries,
      if_pos merges', met, logs, cut, Core.news, Core.news, logs]
  · have settled : (r.appendEntries args now).1.settle owner k args (r.appendEntries args now).2 =
        (r.appendEntries args now).1 := by
      cases h : (r.appendEntries args now).2 with
      | replied => rfl
      | suspended =>
          rw [h] at none
          cases none
    rw [settled]
    have still' : ¬ r.whole.Merges args := by
      intro merges
      have clear := decides (Or.inr merges)
      rw [clear.whole_eq] at merges
      exact still merges
    refine .handle orderly ?_ quiet.handlers quiet.raftThread stays ?_
    · rw [same]
      exact (if_neg still).symm
    · rw [Core.run, Core.run, Core.appendEntries, Core.appendEntries, if_neg still', if_neg still]
      exact Core.meetLeader_complete args now

/-- Where a suspended call of `AppendEntries` stands among the others. -/
theorem handlers_split {hs : List AppendHandler} {j : Nat} {h : AppendHandler}
    (hj : hs[j]? = some h) : ∃ before after, hs = before ++ h :: after ∧
      hs.eraseIdx j = before ++ after ∧ ∀ h', hs.set j h' = before ++ h' :: after := by
  obtain ⟨lt, rfl⟩ := List.getElem?_eq_some_iff.mp hj
  refine ⟨hs.take j, hs.drop (j + 1), ?_, List.eraseIdx_eq_take_drop_succ _ _, fun h' => ?_⟩
  · rw [← List.drop_eq_getElem_cons lt, List.take_append_drop]
  · rw [List.set_eq_take_append_cons_drop, if_pos lt]

/-- The peers are updated. -/
theorem complete_updated (c : Core) (u : PeerUpdate) (es : List LogEntry) :
    (c.connect [u]).complete [{ update := none, rest := es }] =
      c.complete [{ update := some u, rest := es }] := by
  simp only [Core.complete, Suspension.due, List.flatMap_cons, List.flatMap_nil, List.append_nil,
    Option.toList_some, Option.toList_none, List.nil_append, Core.connect_append]
  rfl

theorem Serial.appendResume {j : Nat} (orderly : r.Orderly) (h : r.appendResume j = some r') :
    r.Serial none r' := by
  unfold Replica.appendResume at h
  split at h
  · cases h
  next x hx =>
  obtain ⟨before, after, eq, erase, set⟩ := handlers_split hx
  have here : r.suspensions.Perm (x.suspension :: (before.map AppendHandler.suspension ++
      (after.map AppendHandler.suspension ++ (r.raftThread.suspension r.core).toList))) := by
    rw [suspensions, eq, List.map_append, List.map_cons, List.append_assoc, List.cons_append]
    exact List.perm_middle
  split at h
  · next u hu =>
    cases h
    have same : (r.updatePeers u).handlers = r.handlers := by cases u <;> rfl
    have raft : (r.updatePeers u).raftThread.suspension (r.updatePeers u).core =
        r.raftThread.suspension r.core := by
      cases u <;> exact suspension_congr fun _ => rfl
    rw [same, set]
    refine .complete (r.core_updatePeers u) (Core.complete_replace (some
      ⟨none, x.rest.map AppendLogEntry.entry⟩) orderly here ?_ rfl ?_ ?_)
    · rw [suspensions, List.map_append, List.map_cons, List.append_assoc, List.cons_append]
      exact raft ▸ List.perm_middle
    · rw [AppendHandler.suspension, hu]
      exact complete_updated _ _ _
    · rintro v ⟨⟩
      exact ⟨fun nil => nil, List.subset_append_right _ _⟩
  · next hu =>
    cases h
    have core : ({ r with handlers := r.handlers.eraseIdx j } : Replica).core = r.core := rfl
    have quiet := (quiet_checkIndex { r with handlers := r.handlers.eraseIdx j } x.current).trans
      (quiet_appendRest _ x.args x.rest)
    have stops := appendRest_stops
      ({ r with handlers := r.handlers.eraseIdx j }.checkIndex x.current) x.args x.rest
    rw [core_checkIndex, core] at stops
    refine .complete (settle_core _ _ _ _ _) (stops.resume (w := x.suspension) hu orderly here
      ((settle_suspensions _ _ _ _ _).trans ?_))
    have raft : ((({ r with handlers := r.handlers.eraseIdx j }.checkIndex
        x.current).appendRest x.args x.rest).1.raftThread.suspension
        (({ r with handlers := r.handlers.eraseIdx j }.checkIndex
          x.current).appendRest x.args x.rest).1.core) = r.raftThread.suspension r.core := by
      rw [quiet.raftThread]
      exact suspension_congr fun _ => quiet.term
    rw [suspensions, quiet.handlers, raft, erase, List.map_append, List.append_assoc]

/-- The loop of `runLeaderOneIter` goes on, or begins. -/
theorem Serial.raftImpl (orderly : r.Orderly) (und : r.Undisturbed .raftImpl) :
    r.Serial (r.begins .raftImpl) r.raftImpl := by
  have others (no : r.raftThread ≠ .isLeader) : r.begins .raftImpl = none := if_neg no
  have still {r' : Replica} {t t' : RaftThread} (thread : r.raftThread = t)
      (out : t.suspension r.core = none)
      (no : t ≠ .isLeader) (core : r'.core = r.core) (handlers : r'.handlers = r.handlers)
      (thread' : r'.raftThread = t') (out' : t'.suspension r.core = none) :
      r.Serial (r.begins .raftImpl) r' := by
    rw [others (thread ▸ no)]
    refine .keep orderly core ?_
    rw [suspensions, suspensions, handlers, thread, thread', out, core, out']
  unfold Replica.raftImpl
  split
  · next t => exact still t rfl RaftThread.noConfusion rfl rfl rfl rfl
  · next t =>
    refine still t rfl RaftThread.noConfusion rfl rfl rfl ?_
    split <;> rfl
  · next t =>
    have begun : r.begins .raftImpl = some (.runLeaderOneIter r.raftIn) := if_pos t
    obtain ⟨decides, stays⟩ := und _ begun
    rw [begun]
    by_cases nil : r.raftIn = []
    · rw [nil]
      have kept : r.Serial none (r.leaderAppend r.state.currentTerm []) := by
        refine .keep orderly r.core_persistLogs ?_
        rw [suspensions, suspensions, t]
        rfl
      exact ⟨kept.1, kept.2.trans r.whole.append_nil.symm⟩
    · have clear := decides nil
      obtain ⟨stop, stops, thread, handlers⟩ := leaderAppend_stops r.raftIn r r.state.currentTerm
      refine .complete rfl (stops.enter (fun w hw => (clear.suspensions w hw).1) orderly
        (fun w hw => (clear.suspensions w hw).2) ?_)
      rw [suspensions, suspensions, handlers, thread, t]
      simp [RaftThread.suspension]
  · next saved u rest t =>
    rw [others (t ▸ RaftThread.noConfusion)]
    have here : r.suspensions.Perm (⟨some u, r.core.leaderEntries rest⟩ ::
        r.handlers.map AppendHandler.suspension) := by
      rw [suspensions, t]
      exact List.perm_append_singleton _ _
    have handlers : (r.updatePeers u).handlers = r.handlers := by cases u <;> rfl
    have entries : (r.updatePeers u).core.leaderEntries rest = r.core.leaderEntries rest := by
      rw [core_updatePeers]
      rfl
    refine .complete (r.core_updatePeers u) (Core.complete_replace
      (some ⟨none, r.core.leaderEntries rest⟩) orderly here ?_ rfl (complete_updated _ _ _) ?_)
    · rw [← entries, suspensions, handlers]
      exact List.perm_append_singleton _ _
    · rintro v ⟨⟩
      exact ⟨fun nil => nil, List.subset_append_right _ _⟩
  · next saved rest t =>
    rw [others (t ▸ RaftThread.noConfusion)]
    obtain ⟨stop, stops, thread, handlers⟩ := leaderAppend_stops rest r saved
    have here : r.suspensions.Perm (⟨none, r.core.leaderEntries rest⟩ ::
        r.handlers.map AppendHandler.suspension) := by
      rw [suspensions, t]
      exact List.perm_append_singleton _ _
    refine .complete rfl (stops.resume (w := ⟨none, r.core.leaderEntries rest⟩) rfl orderly here ?_)
    rw [suspensions, handlers, thread]
    exact List.perm_append_comm
  · next saved t => exact still t rfl RaftThread.noConfusion rfl rfl rfl rfl
  · next t => exact still t rfl RaftThread.noConfusion rfl rfl rfl rfl

/-- A step of a call steps down, or looks the leader up, or handlers do not notice. -/
theorem advance_core {now : Int} {call : Call} {p : Replica × Call}
    (h : r.advance now call = some p) :
    (r.StepsDown call ∧ p.1.core = r.core.becomeFollower (-1) now) ∨
    (¬ r.StepsDown call ∧ r.LooksUp call ∧ p.1.core = r.core.leaderAddr) ∨
    (¬ r.StepsDown call ∧ ¬ r.LooksUp call ∧ p.1.core = r.core) := by
  cases call with
  | submitting op it =>
      refine Or.inr (Or.inr ⟨fun down => down, fun up => up, ?_⟩)
      simp only [advance] at h
      split at h <;> cases h <;> rfl
  | queueing op it | addSubmit info prev | removeSubmit serverId prev =>
      cases h
      exact Or.inr (Or.inr ⟨fun down => down, fun up => up, rfl⟩)
  | refused op it =>
      cases h
      exact Or.inr (Or.inl ⟨fun down => down, True.intro, r.core_raftAddr⟩)
  | waiting op it =>
      refine Or.inr (Or.inr ⟨fun down => down, fun up => up, ?_⟩)
      simp only [advance] at h
      split at h
      · obtain ⟨_, _, rfl⟩ := Option.map_eq_some_iff.mp h
        rfl
      · cases h
  | addWaitPrev info n | removeWaitPrev serverId n =>
      simp only [advance] at h
      split at h
      · next passed =>
        cases h
        exact Or.inr (Or.inr ⟨fun down => down, fun up => up.1 passed, rfl⟩)
      · next waits =>
        split at h <;> cases h
        · next last => exact Or.inr (Or.inl ⟨fun down => down, ⟨waits, last⟩, r.core_raftAddr⟩)
        · next more => exact Or.inr (Or.inr ⟨fun down => down, fun up => more up.2, rfl⟩)
  | addWaitCommit info prev n =>
      simp only [advance] at h
      split at h
      · next other =>
        cases h
        exact Or.inr (Or.inl ⟨fun down => down, Or.inl other, r.core_raftAddr⟩)
      · next leads =>
        split at h
        · next committed =>
          cases h
          exact Or.inr (Or.inr
            ⟨fun down => down, fun up => up.elim leads fun up => up.1 committed, rfl⟩)
        · next waits =>
          split at h <;> cases h
          · next last => exact Or.inr (Or.inl
              ⟨fun down => down, Or.inr ⟨waits, last⟩, r.core_raftAddr⟩)
          · next more => exact Or.inr (Or.inr
              ⟨fun down => down, fun up => up.elim leads fun up => more up.2, rfl⟩)
  | removeWaitCommit serverId prev n =>
      simp only [advance] at h
      split at h
      · next committed =>
        cases h
        by_cases self : serverId = r.id
        · rw [if_pos self]
          exact Or.inl ⟨⟨self, committed⟩, rfl⟩
        · rw [if_neg self]
          exact Or.inr (Or.inr ⟨fun down => self down.1, fun up => up.1 committed, rfl⟩)
      · next waits =>
        split at h <;> cases h
        · next last =>
          exact Or.inr (Or.inl ⟨fun down => waits down.2, ⟨waits, last⟩, r.core_raftAddr⟩)
        · next more =>
          exact Or.inr (Or.inr ⟨fun down => waits down.2, fun up => more up.2, rfl⟩)
  | returned | addReturned | removeReturned => cases h

theorem hear_serial (orderly : r.Orderly) (und : r.Undisturbed s) (h : r.hear s = some r') :
    r.Serial (r.begins s) r' := by
  cases s with
  | electionTick now timeout =>
      cases h
      obtain ⟨decides, stays⟩ := und _ rfl
      refine .handle orderly (r.core_run (.electionTick now timeout)).symm ?_ ?_ stays
        (decides.same (by simp) (by simp)) <;>
      · unfold electionTick
        split <;> rfl
  | requestVote args now =>
      cases h
      obtain ⟨decides, stays⟩ := und _ rfl
      obtain ⟨_, _, _, _, _, eq⟩ := r.requestVote_eq args now
      exact .handle orderly (r.core_run (.requestVote args now)).symm (by rw [eq]) (by rw [eq])
        stays (decides.same (by simp) (by simp))
  | appendEntries owner k args now =>
      cases h
      obtain ⟨decides, stays⟩ := und _ rfl
      exact .appendEntries orderly owner k decides stays
  | appendResume j => exact .appendResume orderly h
  | voteReturn k reply now =>
      obtain ⟨t, ht, _, _, rfl⟩ := voteReturn_eq_some h
      have begun : r.begins (.voteReturn k reply now) =
          some (.voteReply t.savedCurrentTerm reply now) := by
            simp only [begins, ht, Option.map_some]
      rw [begun]
      obtain ⟨decides, stays⟩ := und _ begun
      have quiet : (r.voteReply t.savedCurrentTerm reply now).handlers = r.handlers ∧
          (r.voteReply t.savedCurrentTerm reply now).raftThread = r.raftThread := by
        rcases r.voteReply_cases t.savedCurrentTerm reply now with
          ⟨e, _⟩ | ⟨_, _, e⟩ | ⟨_, _, ⟨_, e⟩ | ⟨_, _, _, e⟩⟩ <;> rw [e] <;> exact ⟨rfl, rfl⟩
      exact .handle orderly (r.core_run (.voteReply t.savedCurrentTerm reply now)).symm quiet.1
        quiet.2 stays (decides.same (by simp) (by simp))
  | raftImpl =>
      cases h
      exact .raftImpl orderly und
  | appendReturn k reply now =>
      obtain ⟨t, args, ht, ha, _, _, rfl⟩ := appendReturn_eq_some h
      have begun : r.begins (.appendReturn k reply now) = some (.appendReply t.peer
          t.savedCurrentTerm t.nextIndex args.entries.length reply now) := by
        simp only [begins, ht, Option.bind_some, ha, Option.map_some]
      rw [begun]
      obtain ⟨decides, stays⟩ := und _ begun
      obtain ⟨_, _, _, e, _⟩ := r.appendReply_eq t.peer t.savedCurrentTerm t.nextIndex
        args.entries.length reply now
      exact .handle orderly (r.core_run (.appendReply t.peer t.savedCurrentTerm t.nextIndex
        args.entries.length reply now)).symm (by rw [e]; rfl) (by rw [e]; rfl) stays
        (decides.same (by simp) (by simp))
  | addServer args =>
      cases h
      obtain ⟨decides, stays⟩ := und _ rfl
      have quiet := r.quiet_addServer args
      exact .handle orderly (r.core_run (.addServer args)).symm quiet.handlers quiet.raftThread
        stays (decides.same (by simp) (by simp))
  | removeServer serverId =>
      cases h
      obtain ⟨decides, stays⟩ := und _ rfl
      have quiet := r.quiet_removeServer serverId
      exact .handle orderly (r.core_run (.removeServer serverId)).symm quiet.handlers
        quiet.raftThread stays (decides.same (by simp) (by simp))
  | callStep j now =>
      obtain ⟨call, p, hc, hp, rfl⟩ := callStep_eq_some h
      have threads : p.1.handlers = r.handlers ∧ p.1.raftThread = r.raftThread := by
        rcases advance_cases hp with ⟨_, e⟩ | ⟨_, quiet⟩
        · rw [e]
          exact ⟨rfl, rfl⟩
        · exact ⟨quiet.handlers, quiet.raftThread⟩
      rcases advance_core hp with ⟨down, core⟩ | ⟨no, up, core⟩ | ⟨no, no', core⟩
      · have begun : r.begins (.callStep j now) = some (.stepDown now) := by
          rw [begins, hc, Option.bind_some, if_pos down]
        rw [begun]
        obtain ⟨decides, stays⟩ := und _ begun
        exact .handle orderly core threads.1 threads.2 stays (decides.same (by simp) (by simp))
      · have begun : r.begins (.callStep j now) = some .leaderAddr := by
          rw [begins, hc, Option.bind_some, if_neg no, if_pos up]
        rw [begun]
        obtain ⟨decides, stays⟩ := und _ begun
        exact .handle orderly core threads.1 threads.2 stays (decides.same (by simp) (by simp))
      · have begun : r.begins (.callStep j now) = none := by
          rw [begins, hc, Option.bind_some, if_neg no, if_neg no']
        rw [begun]
        refine .keep orderly core ?_
        have raft : p.1.raftThread.suspension p.1.core = r.raftThread.suspension r.core := by
          rw [threads.2, core]
        exact congrArg₂ (· ++ ·) (congrArg _ threads.1) (congrArg _ raft)
  | voteSend k =>
      obtain ⟨_, _, _, _, _, rfl⟩ := voteSend_eq_some h
      exact .keep orderly rfl rfl
  | voteFail k =>
      obtain ⟨_, _, _, rfl⟩ := voteFail_eq_some h
      exact .keep orderly rfl rfl
  | appendSend k junk =>
      obtain ⟨_, _, _, _, _, rfl⟩ := appendSend_eq_some h
      exact .keep orderly rfl rfl
  | appendFail k =>
      obtain ⟨_, _, _, rfl⟩ := appendFail_eq_some h
      exact .keep orderly rfl rfl
  | voteReply k reply | appendReply k reply =>
      cases h
      exact .keep orderly rfl rfl
  | executer ok =>
      cases h
      obtain ⟨_, _, _, _, _, _, e⟩ := r.executer_eq ok
      rw [e]
      exact .keep orderly rfl rfl
  | client command =>
      obtain ⟨_, e⟩ := Option.ite_none_right_eq_some.mp h
      cases e
      exact .keep orderly rfl rfl

end Replica
end OhMyDb
