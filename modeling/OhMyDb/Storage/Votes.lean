import OhMyDb.Model.PersistentStore
import OhMyDb.Raft.Election
import OhMyDb.Raft.Stepwise

/-!
The persisted vote. Its two values are in two files which are renamed one after the
other, and a crash can fall between the two.
-/

namespace OhMyDb
open Function (update)
open Execution

namespace PersistentStore
variable {base : String} {d : Directory} {p p' : PersistentStore}

/-- The two files hold these values. -/
structure Holds (base : String) (p : PersistentStore) (d : Directory) : Prop where
  votedFor : d (getFilename base "VotedFor") = some (some p.votedFor)
  currentTerm : d (getFilename base "CurrentTerm") = some (some p.currentTerm)

theorem Holds.bootstrap (h : Holds base p d) : bootstrap base d = p := by
  simp only [PersistentStore.bootstrap, load, loadInt, h.votedFor, h.currentTerm]
  rfl

/-- The four files are told apart by the lengths of their names. -/
theorem getFilename_ne (key key' suffix : String)
    (length : key.length ≠ key'.length + suffix.length) :
    getFilename base key ≠ getFilename base key' ++ suffix := by
  intro same
  have same := congrArg String.length same
  simp only [getFilename, String.length_append] at same
  omega

theorem votedFor_ne_currentTerm : getFilename base "VotedFor" ≠ getFilename base "CurrentTerm" := by
  have apart := @getFilename_ne base "VotedFor" "CurrentTerm" "" (by decide)
  rwa [String.append_empty] at apart

theorem Holds.files (base : String) (p : PersistentStore) : Holds base p (files base p) :=
  ⟨if_pos rfl, (if_neg votedFor_ne_currentTerm.symm).trans (if_pos rfl)⟩

/-- A call of `store` that is interrupted; only its last operation is seen. -/
theorem store_take (base key : String) (val : Int) (n : ℕ) (d : Directory) :
    ((store base key val).take n).foldl FileOp.run d (getFilename base key) =
        (if n < 3 then d (getFilename base key) else some (some val)) ∧
      ∀ name, name ≠ getFilename base key → name ≠ getFilename base key ++ ".tmp" →
        ((store base key val).take n).foldl FileOp.run d name = d name := by
  have other : getFilename base key ≠ getFilename base key ++ ".tmp" :=
    getFilename_ne key key ".tmp" (Nat.ne_of_lt (Nat.lt_add_of_pos_right (by decide)))
  match n with
  | 0 => exact ⟨rfl, fun _ _ _ => rfl⟩
  | 1 | 2 => simp +contextual [store, FileOp.run, other]
  | n + 3 => simp +contextual [store, FileOp.run, other]

/-- The values found when `n` operations of one call have been made. -/
def torn (p p' : PersistentStore) (n : ℕ) : PersistentStore where
  votedFor := if n < 3 then p.votedFor else p'.votedFor
  currentTerm := if n < 6 then p.currentTerm else p'.currentTerm

theorem Holds.persist (h : Holds base p d) (p' : PersistentStore) (n : ℕ) :
    Holds base (torn p p' n) (((persist base p').take n).foldl FileOp.run d) := by
  have length : (store base "VotedFor" p'.votedFor).length = 3 := rfl
  rw [PersistentStore.persist, List.take_append, List.foldl_append, length]
  obtain ⟨voted, rest⟩ := store_take base "VotedFor" p'.votedFor n d
  generalize ((store base "VotedFor" p'.votedFor).take n).foldl FileOp.run d = e at voted rest
  obtain ⟨term, rest'⟩ := store_take base "CurrentTerm" p'.currentTerm (n - 3) e
  constructor
  · rw [rest' _ votedFor_ne_currentTerm (getFilename_ne _ _ _ (by decide)), voted, h.votedFor]
    simp only [torn]
    split <;> rfl
  · rw [term, rest _ votedFor_ne_currentTerm.symm (getFilename_ne _ _ _ (by decide)), h.currentTerm]
    simp only [torn, show n - 3 < 3 ↔ n < 6 by omega]
    split <;> rfl

/-- The values found when `n` operations of a sequence of calls have been made. -/
def found (p : PersistentStore) : List PersistentStore → ℕ → PersistentStore
  | [], _ => p
  | p' :: ps, n => if n < 6 then torn p p' n else found p' ps (n - 6)

/-- No call is interrupted between its two renames, unless it changes one of the two
values only. -/
def Whole (p : PersistentStore) : List PersistentStore → ℕ → Prop
  | [], _ => True
  | p' :: ps, n =>
      if n < 6 then n < 3 ∨ p'.votedFor = p.votedFor ∨ p'.currentTerm = p.currentTerm
      else Whole p' ps (n - 6)

instance Whole.decidable (p : PersistentStore) :
    (ps : List PersistentStore) → (n : ℕ) → Decidable (Whole p ps n)
  | [], _ => inferInstanceAs (Decidable True)
  | p' :: ps, n =>
      have : Decidable (Whole p' ps (n - 6)) := Whole.decidable p' ps (n - 6)
      inferInstanceAs (Decidable (if n < 6 then _ else _))

theorem Holds.persists (h : Holds base p d) (ps : List PersistentStore) (n : ℕ) :
    Holds base (found p ps n)
      (((ps.flatMap (PersistentStore.persist base)).take n).foldl FileOp.run d) := by
  induction ps generalizing p d n with
  | nil =>
      rw [List.flatMap_nil, List.take_nil]
      exact h
  | cons p' ps ih =>
      have length : (PersistentStore.persist base p').length = 6 := rfl
      have first := h.persist p' n
      rw [List.flatMap_cons, List.take_append, List.foldl_append, length, found]
      split
      · next lt =>
        rw [Nat.sub_eq_zero_of_le (Nat.le_of_lt lt), List.take_zero]
        exact first
      · next le =>
        have done : torn p p' n = p' := by
          simp only [torn, if_neg le, if_neg (show ¬ n < 3 by omega)]
        rw [done] at first
        exact ih first (n - 6)

theorem crash_eq (base : String) (p : PersistentStore) (ps : List PersistentStore) (n : ℕ) :
    crash base p ps n = found p ps n :=
  ((Holds.files base p).persists ps n).bootstrap

/-- Then what is found has been stored by one of the calls, or before them all. -/
theorem Whole.found_mem {ps : List PersistentStore} {n : ℕ} (h : Whole p ps n) :
    found p ps n ∈ p :: ps := by
  induction ps generalizing p n with
  | nil => exact List.mem_cons_self
  | cons p' ps ih =>
      simp only [Whole, found] at h ⊢
      by_cases lt : n < 6
      · rw [if_pos lt] at h ⊢
        by_cases early : n < 3
        · rw [torn, if_pos early, if_pos lt]
          exact List.mem_cons_self
        · rw [torn, if_neg early, if_pos lt]
          rcases h with lt' | same | same
          · exact absurd lt' early
          · rw [same]
            exact List.mem_cons_self
          · rw [← same]
            exact List.mem_cons_of_mem _ List.mem_cons_self
      · rw [if_neg lt] at h ⊢
        exact List.mem_cons_of_mem _ (ih h)

end PersistentStore

namespace Replica
variable {R : Rules} {r r' r'' : Replica}

/-- What is stored is what is in memory. -/
def Stored (r : Replica) : Prop := r.state.pStore = r.state.saved

/-- The term and the vote are as before. -/
structure Steady (r r' : Replica) : Prop where
  term : r'.state.currentTerm = r.state.currentTerm
  votedFor : r'.state.votedFor = r.state.votedFor
  stored : r.Stored → r'.Stored

theorem Steady.refl (r : Replica) : Steady r r := ⟨rfl, rfl, fun stored => stored⟩

theorem Steady.trans (h : Steady r r') (h' : Steady r' r'') : Steady r r'' :=
  ⟨h'.term.trans h.term, h'.votedFor.trans h.votedFor, fun stored => h'.stored (h.stored stored)⟩

theorem Steady.saved (h : Steady r r') : r.state.saved = r'.state.saved := by
  rw [RaftState.saved, RaftState.saved, h.term, h.votedFor]

theorem Steady.append (r : Replica) (e : LogEntry) : Steady r (r.append e) := by
  refine ⟨rfl, rfl, fun stored => ?_⟩
  unfold Stored Replica.append
  split
  · rfl
  · exact stored

theorem Change.steady (ch : Change R r r') (still : ¬ R.stand) : Steady r r' := by
  cases ch with
  | stand x ok _ => exact absurd ok still
  | push saved op rest _ _ =>
      have appended := Steady.append r ⟨r.state.currentTerm, op⟩
      exact ⟨appended.term, appended.votedFor, appended.stored⟩
  | follow hs x e rest _ _ _ _ _ =>
      have appended := Steady.append r ⟨e.term, e.op⟩
      exact ⟨appended.term, appended.votedFor, appended.stored⟩
  | update saved u rest _ _ =>
      cases u with
      | addPeer => exact ⟨rfl, rfl, fun _ => rfl⟩
      | removePeer => exact ⟨rfl, rfl, fun stored => stored⟩
  | updateHandler j x u _ _ _ =>
      cases u with
      | addPeer => exact ⟨rfl, rfl, fun _ => rfl⟩
      | removePeer => exact ⟨rfl, rfl, fun stored => stored⟩
  | _ => exact ⟨rfl, rfl, fun stored => stored⟩

theorem Changes.steady (ch : Changes R r r') (still : ¬ R.stand) : Steady r r' :=
  ch.preserves (I := Steady r) (fun _ _ h ch => h.trans (ch.steady still)) (.refl r)

/-- What is appended or committed leaves the vote alone. -/
def Rules.still : Rules where
  stand := False

/-! What each handler stores, one value for each of its calls of `persist`: what that call
has left in `pStore`. -/

/-- `persist` is called for each configuration entry. -/
def configSaves (from_ : ℕ) (after : RaftState) : List PersistentStore :=
  List.replicate ((after.logs.items.drop from_).countP fun e => e.op.command.isConfig) after.pStore

def updateSaves (after : RaftState) : PeerUpdate → List PersistentStore
  | .addPeer _ => [after.pStore]
  | .removePeer _ => []

def requestVoteSaves (r : Replica) (args : RequestVoteParams) (now : Int) : List PersistentStore :=
  if args.candidateId ∉ r.peers then []
  else if args.term > r.state.currentTerm then
    [(r.state.becomeFollower args.term now).pStore, (r.requestVote args now).1.state.pStore]
  else [(r.requestVote args now).1.state.pStore]

/-- A candidate becomes a follower or a leader. -/
def voteReplySaves (r : Replica) (savedCurrentTerm : Int) (reply : RequestVoteRet) (now : Int) :
    List PersistentStore :=
  if r.state.role = .candidate ∧
      (r.voteReply savedCurrentTerm reply now).state.role ≠ .candidate then
    [(r.voteReply savedCurrentTerm reply now).state.pStore]
  else []

def appendEntriesSaves (r : Replica) (args : AppendEntriesParams) (now : Int) :
    List PersistentStore :=
  let after := (r.appendEntries args now).1.state
  (if r.state.role ≠ .dead ∧ (args.term > r.state.currentTerm ∨
      (args.term = r.state.currentTerm ∧ r.state.role ≠ .follower)) then
    [(r.observeLeader args now).pStore] else []) ++
    configSaves ((r.cut args now).getD after.logs.items.length) after

end Replica

namespace Cluster
variable {c c' : Cluster} {a : Action} {q : Int}

/-- What replica `q` stores while the step is made: for each call of `persist` its values,
as the handler has left them in `pStore`. -/
def saves (q : Int) (c : Cluster) (a : Action) : List PersistentStore :=
  let before := c.node q
  match c.step a with
  | none => []
  | some c' =>
      let after := (c'.node q).state
      match a with
      | .electionTick r now timeout =>
          if r = q ∧ before.state.role = .follower ∧
              now - before.state.electionResetEvent > timeout then [after.pStore] else []
      | .voteDeliver r k now =>
          match (c.node r).voteThreads[k]? with
          | some { peer, args := some args, .. } =>
              if peer = q then before.requestVoteSaves args now else []
          | _ => []
      | .voteReturn r k reply now =>
          match before.voteThreads[k]? with
          | some t => if r = q then before.voteReplySaves t.savedCurrentTerm reply now else []
          | none => []
      | .raftImpl r =>
          if r = q then
            match before.raftThread with
            | .updatingPeers _ u _ => Replica.updateSaves after u
            | _ => Replica.configSaves before.state.logs.items.length after
          else []
      | .appendDeliver r k now =>
          match (c.node r).appendThreads[k]? with
          | some { peer, args := some args, .. } =>
              if peer = q then before.appendEntriesSaves args now else []
          | _ => []
      | .appendResume p j =>
          match before.handlers[j]? with
          | some { update := some u, .. } => if p = q then Replica.updateSaves after u else []
          | _ => if p = q then Replica.configSaves before.state.logs.items.length after else []
      | .appendReturn r k reply _ =>
          match before.appendThreads[k]? with
          | some t => if r = q ∧ reply.term > t.savedCurrentTerm then [after.pStore] else []
          | none => []
      | .callStep r j _ =>
          match before.calls[j]? with
          | some call => if r = q ∧ before.StepsDown call then [after.pStore] else []
          | none => []
      | _ => []

/-- The step grants no vote to a server that `VotedFor` cannot name, and does not clear the
vote within the term: nobody becomes leader, or follower of a term that is not later. -/
def HoldsVote (c : Cluster) : Action → Prop
  | .electionTick r _ _ => (c.node r).id ≠ -1
  | .voteDeliver r k _ => ∀ t ∈ (c.node r).voteThreads[k]?, ∀ args ∈ t.args,
      args.candidateId ≠ -1
  | .voteReturn r k reply _ => ∀ t ∈ (c.node r).voteThreads[k]?,
      (c.node r).state.role = .candidate →
        (t.savedCurrentTerm < reply.term → c.currentTerm r < reply.term) ∧
        (Replica.Wins t.savedCurrentTerm reply →
          ((c.node r).state.votesReceived + 1) * 2 ≤ ((c.node r).state.clusterConfig.size : Int))
  | .appendDeliver r k _ => ∀ t ∈ (c.node r).appendThreads[k]?, ∀ args ∈ t.args,
      args.term = c.currentTerm t.peer → (c.node t.peer).state.role = .follower ∨
        (c.node t.peer).state.role = .dead
  | .appendReturn r k reply _ => ∀ t ∈ (c.node r).appendThreads[k]?,
      t.savedCurrentTerm < reply.term → c.currentTerm r < reply.term
  | .callStep r j _ => ∀ call ∈ (c.node r).calls[j]?, ¬ (c.node r).StepsDown call
  | _ => True

instance (c : Cluster) (a : Action) : Decidable (c.HoldsVote a) :=
  match a with
  | .electionTick _ _ _ => inferInstanceAs (Decidable (_ ≠ _))
  | .voteDeliver _ _ _ => inferInstanceAs (Decidable (∀ _, _ → ∀ _, _ → _))
  | .voteReturn _ _ _ _ => inferInstanceAs (Decidable (∀ _, _ → _ → _ ∧ _))
  | .appendDeliver _ _ _ => inferInstanceAs (Decidable (∀ _, _ → ∀ _, _ → _ → _))
  | .appendReturn _ _ _ _ => inferInstanceAs (Decidable (∀ _, _ → _ → _))
  | .callStep _ _ _ => inferInstanceAs (Decidable (∀ _, _ → _))
  | .voteSend _ _ | .voteFail _ _ | .raftImpl _ | .appendSend _ _ _ | .appendResume _ _
  | .appendFail _ _ | .executer _ _ | .clientGet _ _ | .clientPut _ _ _ | .addServer _ _
  | .removeServer _ _ => inferInstanceAs (Decidable True)

end Cluster

namespace Replica
variable {r r' : Replica}

/-- The term goes on, or the vote of the term is kept once it is given. -/
def KeepsTerm (r r' : Replica) : Prop :=
  r.state.currentTerm < r'.state.currentTerm ∨
    (r'.state.currentTerm = r.state.currentTerm ∧
      (r'.state.votedFor = r.state.votedFor ∨ r.state.votedFor = -1))

theorem Steady.keepsTerm (h : Steady r r') : KeepsTerm r r' :=
  Or.inr ⟨h.term, Or.inl h.votedFor⟩

theorem requestVote_keepsTerm (r : Replica) (args : RequestVoteParams) (now : Int) :
    KeepsTerm r (r.requestVote args now).1 ∧ (r.Stored → (r.requestVote args now).1.Stored) := by
  have observed : KeepsTerm r { r with state := r.observeTerm args.term now } := by
    unfold observeTerm
    split
    · next later => exact Or.inl later
    · exact Or.inr ⟨rfl, Or.inl rfl⟩
  simp only [requestVote]
  split_ifs with member grants
  · refine ⟨?_, fun _ => rfl⟩
    rcases observed with later | ⟨same, voted⟩
    · exact Or.inl later
    · refine Or.inr ⟨same, ?_⟩
      rcases voted with voted | none
      · rcases grants.2.1 with none | again
        · exact Or.inr (voted.symm.trans none)
        · exact Or.inl (again.symm.trans voted)
      · exact Or.inr none
  · exact ⟨observed, fun _ => rfl⟩
  · exact ⟨Or.inr ⟨rfl, Or.inl rfl⟩, fun stored => stored⟩

/-- Appending, truncating and committing: all of `AppendEntries` but for what it learns of
the leader. -/
theorem appendEntries_steady (r : Replica) (args : AppendEntriesParams) (now : Int)
    (bare : ∀ e ∈ args.entries, e.op.promiseHandle = none) :
    Steady { r with state := r.meetLeader args now } (r.appendEntries args now).1 := by
  by_cases dead : r.state.role = .dead
  · simp only [appendEntries, meetLeader, if_pos dead]
    exact ⟨rfl, rfl, fun stored => stored⟩
  · simp only [appendEntries, meetLeader, if_neg dead]
    split
    · have merged := @mergeEntries_changes .still 0 0 { r with state := r.observeLeader args now }
        args bare fun _ => ⟨True.intro, fun _ _ => True.intro⟩
      have steady := Changes.steady merged (fun no => no)
      revert steady
      cases ({ r with state := r.observeLeader args now }.mergeEntries args).2 with
      | replied ret => exact fun steady => steady
      | suspended u e rest => exact fun steady => ⟨steady.term, steady.votedFor, steady.stored⟩
    · exact .refl _

theorem meetLeader_keepsTerm (r : Replica) (args : AppendEntriesParams) (now : Int) :
    ((args.term = r.state.currentTerm → r.state.role = .follower ∨ r.state.role = .dead) →
      KeepsTerm r { r with state := r.meetLeader args now }) ∧
      (r.Stored → ({ r with state := r.meetLeader args now } : Replica).Stored) := by
  have kept : KeepsTerm r r := Or.inr ⟨rfl, Or.inl rfl⟩
  unfold meetLeader
  split
  · exact ⟨fun _ => kept, fun stored => stored⟩
  · next alive =>
    by_cases later : args.term > r.state.currentTerm
    · simp only [observeLeader, if_pos later]
      split_ifs <;> exact ⟨fun _ => Or.inl later, fun _ => rfl⟩
    · by_cases again : args.term = r.state.currentTerm ∧ r.state.role ≠ .follower
      · simp only [observeLeader, if_neg later, if_pos again]
        exact ⟨fun follows => absurd (follows again.1) (by simp [again.2, alive]), fun _ => rfl⟩
      · simp only [observeLeader, if_neg later, if_neg again]
        exact ⟨fun _ => kept, fun stored => stored⟩

theorem appendReply_steady (r : Replica) (id saved nextIndex : Int) (n : ℕ)
    (reply : AppendEntriesRet) (now : Int) (earlier : ¬ saved < reply.term) :
    Steady r (r.appendReply id saved nextIndex n reply now) := by
  refine appendReply_elim r id saved nextIndex n reply now ?down ?idle ?refused ?matched ?committed
  case down => exact fun later => absurd later earlier
  case idle => exact fun _ _ => .refl r
  case refused => exact fun _ _ _ => ⟨rfl, rfl, fun stored => stored⟩
  case matched => exact fun _ _ _ _ _ => ⟨rfl, rfl, fun stored => stored⟩
  case committed =>
    rintro _ _ _ m i _ _ _ _ rfl
    exact ⟨rfl, rfl, fun stored => stored⟩

theorem appendReply_keepsTerm (r : Replica) (id saved nextIndex : Int) (n : ℕ)
    (reply : AppendEntriesRet) (now : Int) :
    ((saved < reply.term → r.state.currentTerm < reply.term) →
      KeepsTerm r (r.appendReply id saved nextIndex n reply now)) ∧
      (r.Stored → (r.appendReply id saved nextIndex n reply now).Stored) := by
  by_cases down : saved < reply.term
  · rw [appendReply, if_pos down]
    exact ⟨fun later => Or.inl (later down), fun _ => rfl⟩
  · have still := r.appendReply_steady id saved nextIndex n reply now down
    exact ⟨fun _ => still.keepsTerm, still.stored⟩

theorem voteReply_keepsTerm (r : Replica) (saved : Int) (reply : RequestVoteRet) (now : Int) :
    ((r.state.role = .candidate → (saved < reply.term → r.state.currentTerm < reply.term) ∧
      (Wins saved reply →
        (r.state.votesReceived + 1) * 2 ≤ (r.state.clusterConfig.size : Int))) →
      KeepsTerm r (r.voteReply saved reply now)) ∧
      (r.Stored → (r.voteReply saved reply now).Stored) := by
  have kept : KeepsTerm r r := Or.inr ⟨rfl, Or.inl rfl⟩
  rcases r.voteReply_cases saved reply now with
    ⟨eq, _⟩ | ⟨role, later, eq⟩ | ⟨role, wins, ⟨_, eq⟩ | ⟨enough, s, hs, eq⟩⟩
  · rw [eq]
    exact ⟨fun _ => kept, fun stored => stored⟩
  · rw [eq]
    exact ⟨fun ok => Or.inl ((ok role).1 later), fun _ => rfl⟩
  · rw [eq]
    exact ⟨fun _ => kept, fun stored => stored⟩
  · rw [eq, hs]
    exact ⟨fun ok => absurd ((ok role).2 wins) (Int.not_le.mpr enough), fun _ => rfl⟩

theorem electionTick_keepsTerm (r : Replica) (now timeout : Int) :
    KeepsTerm r (r.electionTick now timeout) ∧
      (r.Stored → (r.electionTick now timeout).Stored) := by
  unfold electionTick
  split
  · exact ⟨Or.inl (Int.lt_succ _), fun _ => rfl⟩
  · exact ⟨Or.inr ⟨rfl, Or.inl rfl⟩, fun stored => stored⟩

end Replica

namespace Cluster
variable {c c' : Cluster} {a : Action} {q : Int}

theorem Transition.keepsTerm (tr : Transition c a c') (bare : ∀ p, (c.node p).Bare) :
    ((c.server a = q → c.HoldsVote a) → Replica.KeepsTerm (c.node q) (c'.node q)) ∧
      ((c.node q).Stored → (c'.node q).Stored) := by
  by_cases here : c.server a = q
  · -- the steps that change nothing the vote depends on
    have still (abides : c.Abides .still a) :
        ((c.server a = q → c.HoldsVote a) → Replica.KeepsTerm (c.node q) (c'.node q)) ∧
          ((c.node q).Stored → (c'.node q).Stored) := by
      have steady := Replica.Changes.steady (tr.changes bare abides q) (fun no => no)
      exact ⟨fun _ => steady.keepsTerm, steady.stored⟩
    have self (r : Int) (x : Replica) : (c.set r x).node r = x := Function.update_self _ _ _
    have like {x : Replica} (same : (c'.node q).state = x.state)
        (kept : (c.HoldsVote a → Replica.KeepsTerm (c.node q) x) ∧
          ((c.node q).Stored → x.Stored)) :
        ((c.server a = q → c.HoldsVote a) → Replica.KeepsTerm (c.node q) (c'.node q)) ∧
          ((c.node q).Stored → (c'.node q).Stored) := by
      refine ⟨fun ok => ?_, fun stored => ?_⟩
      · simpa only [Replica.KeepsTerm, same] using kept.1 (ok here)
      · simpa only [Replica.Stored, same] using kept.2 stored
    cases tr with
    | electionTick r now timeout =>
        obtain rfl : r = q := here
        obtain ⟨kept, stored⟩ := (c.node r).electionTick_keepsTerm now timeout
        exact like (by rw [self]) ⟨fun _ => kept, stored⟩
    | voteDeliver r k now t args ht ha _ =>
        obtain rfl : t.peer = q := by simpa [server, ht] using here
        obtain ⟨kept, stored⟩ := (c.node t.peer).requestVote_keepsTerm args now
        exact like (by rw [pushVoteReply_state, self]) ⟨fun _ => kept, stored⟩
    | voteReturn r k reply now t ht _ _ =>
        obtain rfl : r = q := here
        obtain ⟨kept, stored⟩ := (c.node r).voteReply_keepsTerm t.savedCurrentTerm reply now
        exact like (by rw [self]; rfl) ⟨fun holds => kept (holds t ht), stored⟩
    | appendSend r k junk t _ _ _ _ =>
        obtain rfl : r = q := here
        exact like (by rw [self]; rfl)
          (x := { c.node r with state := { (c.node r).state with
            nextIndex := ((c.node r).state.nextIndex.subscript t.peer 0).2 } })
          ⟨fun _ => Or.inr ⟨rfl, Or.inl rfl⟩, fun stored => stored⟩
    | appendDeliver r k now t args ht ha _ =>
        obtain rfl : t.peer = q := by simpa [server, ht] using here
        obtain ⟨met, stored⟩ := (c.node t.peer).meetLeader_keepsTerm args now
        have steady := (c.node t.peer).appendEntries_steady args now
          ((bare r).threads t (List.mem_of_getElem? ht) args ha)
        refine like (by rw [settleAppend_state, self])
          ⟨fun holds => ?_, fun s => steady.stored (stored s)⟩
        have met := met (holds t ht args ha)
        simpa only [Replica.KeepsTerm, steady.term, steady.votedFor] using met
    | appendReturn r k reply now t args ht _ _ _ =>
        obtain rfl : r = q := here
        obtain ⟨kept, stored⟩ := (c.node r).appendReply_keepsTerm t.peer t.savedCurrentTerm
          t.nextIndex args.entries.length reply now
        exact like (by rw [self]; rfl) ⟨fun holds => kept (holds t ht), stored⟩
    | callStep r j now call p hc hp =>
        by_cases down : (c.node r).StepsDown call
        · obtain rfl : r = q := here
          rcases Replica.advance_cases hp with ⟨_, stepped⟩ | ⟨no, _⟩
          · refine like (x := p.1) (by rw [self]) ⟨fun holds => absurd down (holds call hc), ?_⟩
            rw [stepped]
            exact fun _ => rfl
          · exact absurd down no
        · refine still fun x hx => ?_
          obtain rfl : x = call := Option.some.inj (hx.symm.trans hc)
          exact ⟨True.intro, fun _ => True.intro, down⟩
    | _ => exact still (by simp [Abides, Replica.Rules.still])
  · obtain ⟨vs, as, same⟩ := tr.elsewhere (Ne.symm here)
    rw [same]
    exact ⟨fun _ => Or.inr ⟨rfl, Or.inl rfl⟩, fun stored => stored⟩

/-- What a call of `persist` has left is the outcome of the step, or of a later term than the
replica was in. -/
theorem mem_saves {p : PersistentStore} (hs : c.step a = some c') (bare : ∀ p, (c.node p).Bare)
    (before : (c.node q).Stored) (hp : p ∈ saves q c a) :
    p = (c'.node q).state.saved ∨ c.currentTerm q < p.currentTerm := by
  have tr := (Transition.of_step hs).2
  have after : (c'.node q).state.pStore = (c'.node q).state.saved := (tr.keepsTerm bare).2 before
  have replicated {n : ℕ} {s : RaftState} (mem : p ∈ Replica.configSaves n s) : p = s.pStore :=
    (List.mem_replicate.mp mem).2
  have updated {s : RaftState} {u : PeerUpdate} (mem : p ∈ Replica.updateSaves s u) :
      p = s.pStore := by
    cases u with
    | addPeer => exact List.mem_singleton.mp mem
    | removePeer => cases mem
  have self (r : Int) (x : Replica) : (c.set r x).node r = x := Function.update_self _ _ _
  simp only [saves, hs] at hp
  cases tr with
  | electionTick r now timeout =>
      exact Or.inl ((List.mem_singleton.mp (List.mem_ite_nil_right.mp hp).2).trans after)
  | voteDeliver r k now t args ht ha _ =>
      obtain ⟨peer, saved, _, replies, finished, received⟩ := t
      cases ha
      simp only [ht] at hp
      obtain ⟨rfl, hp⟩ := List.mem_ite_nil_right.mp hp
      rw [pushVoteReply_state, self] at after ⊢
      unfold Replica.requestVoteSaves at hp
      split_ifs at hp with _ later
      · rcases List.mem_cons.mp hp with rfl | hp
        · exact Or.inr later
        · exact Or.inl ((List.mem_singleton.mp hp).trans after)
      · exact Or.inl ((List.mem_singleton.mp hp).trans after)
      · cases hp
  | voteReturn r k reply now t ht _ _ =>
      dsimp only at hp
      split at hp
      · next u hu =>
        obtain ⟨rfl, hp⟩ := List.mem_ite_nil_right.mp hp
        obtain rfl : u = t := Option.some.inj (hu.symm.trans ht)
        rw [self] at after ⊢
        exact Or.inl ((List.mem_singleton.mp (List.mem_ite_nil_right.mp hp).2).trans after)
      · cases hp
  | raftImpl r =>
      dsimp only at hp
      obtain ⟨rfl, hp⟩ := List.mem_ite_nil_right.mp hp
      split at hp
      · exact Or.inl ((updated hp).trans after)
      · exact Or.inl ((replicated hp).trans after)
  | appendDeliver r k now t args ht ha _ =>
      obtain ⟨peer, saved, nextIndex, _, replies, finished⟩ := t
      cases ha
      simp only [ht] at hp
      obtain ⟨rfl, hp⟩ := List.mem_ite_nil_right.mp hp
      rw [settleAppend_state, self] at after ⊢
      rcases List.mem_append.mp hp with hp | hp
      · obtain ⟨⟨alive, _⟩, hp⟩ := List.mem_ite_nil_right.mp hp
        -- nothing it does after that changes the term or the vote
        have steady := (c.node peer).appendEntries_steady args now
          ((bare r).threads _ (List.mem_of_getElem? ht) args rfl)
        have met := ((c.node peer).meetLeader_keepsTerm args now).2 before
        simp only [Replica.Stored, Replica.meetLeader, if_neg alive] at met
        have same := steady.saved
        simp only [Replica.meetLeader, if_neg alive] at same
        exact Or.inl (((List.mem_singleton.mp hp).trans met).trans same)
      · exact Or.inl ((replicated hp).trans after)
  | appendUpdate p' j h u hj hu | appendResume p' j h hj hu =>
      dsimp only at hp
      split at hp
      · obtain ⟨rfl, hp⟩ := List.mem_ite_nil_right.mp hp
        exact Or.inl ((updated hp).trans after)
      · obtain ⟨rfl, hp⟩ := List.mem_ite_nil_right.mp hp
        exact Or.inl ((replicated hp).trans after)
  | appendReturn r k reply now t args ht _ _ _ =>
      dsimp only at hp
      split at hp
      · exact Or.inl ((List.mem_singleton.mp (List.mem_ite_nil_right.mp hp).2).trans after)
      · cases hp
  | callStep r j now call x hc hx =>
      dsimp only at hp
      split at hp
      · exact Or.inl ((List.mem_singleton.mp (List.mem_ite_nil_right.mp hp).2).trans after)
      · cases hp
  | _ => cases hp

end Cluster

/-! Runs in which processes are killed in the middle of their steps. -/

/-- What is on disk when a replica has been killed. -/
def Replica.killed (r : Replica) (pStore : PersistentStore) (file : List LogEntry) : Replica :=
  { r with state := { r.state with
    pStore := pStore
    logs := { r.state.logs with file := file } } }

/-- A step, or a replica that is killed `n` file operations of its store into a step and
is started again with `enableBootstrap`. What its log file then holds is left open. -/
inductive Accident where
  | step (a : Action)
  | crash (r : Int) (a : Action) (n : ℕ) (file : List LogEntry)

namespace Cluster
variable {storeDir : String} {config : Int → IntMap ServerInfo}

/-- The two values a replica that is killed in the middle of a step finds. -/
def loaded (storeDir : String) (c : Cluster) (r : Int) (a : Action) (n : ℕ) : PersistentStore :=
  PersistentStore.crash (storeFilePrefix storeDir r) (c.node r).state.pStore (saves r c a) n

def perish (storeDir : String) (config : Int → IntMap ServerInfo) (c : Cluster) :
    Accident → Option Cluster
  | .step a => c.step a
  | .crash r a n file =>
      if r ∈ c.servers then
        some (c.set r (((c.node r).killed (loaded storeDir c r a n) file).restart (config r)))
      else none

/-- A crash leaves the two values as they were in memory before or after a call of
`persist`, and no vote of the term they name is forgotten. -/
def VoteSurvives (storeDir : String) (q : Int) (c : Cluster) : Accident → Prop
  | .crash r a n _ => r = q →
      loaded storeDir c q a n ∈ (c.node q).state.saved :: saves q c a ∧
      ∀ candidate, .voted candidate (loaded storeDir c q a n).currentTerm ∈ (c.node q).hist →
        (loaded storeDir c q a n).votedFor = candidate
  | .step _ => True

/-- The steps of replica `q` hold its vote, and it is not killed between the two renames of
a call that changes both values. -/
def KeepsVote (q : Int) (c : Cluster) : Accident → Prop
  | .step a => c.server a = q → c.HoldsVote a
  | .crash r a n _ => r = q → (c.server a = q → c.HoldsVote a) ∧
      PersistentStore.Whole (c.node q).state.pStore (saves q c a) n

instance (q : Int) (c : Cluster) (i : Accident) : Decidable (c.KeepsVote q i) :=
  match i with
  | .step _ => inferInstanceAs (Decidable (_ → _))
  | .crash _ _ _ _ => inferInstanceAs (Decidable (_ → _ ∧ _))

end Cluster

namespace Replica
variable {r r' : Replica}

/-- Every vote on record is one of an earlier term, or the one `VotedFor` names. -/
structure Remembers (r : Replica) : Prop where
  stored : r.Stored
  votes : ∀ candidate term, .voted candidate term ∈ r.hist → candidate ≠ -1 ∧
    (term < r.state.currentTerm ∨
      (term = r.state.currentTerm ∧ r.state.votedFor = candidate))

theorem Remembers.keep (m : r.Remembers) (kept : KeepsTerm r r') {candidate term : Int}
    (old : .voted candidate term ∈ r.hist) : candidate ≠ -1 ∧
      (term < r'.state.currentTerm ∨
        (term = r'.state.currentTerm ∧ r'.state.votedFor = candidate)) := by
  obtain ⟨named, vote⟩ := m.votes candidate term old
  refine ⟨named, ?_⟩
  rcases kept with later | ⟨same, voted⟩
  · exact Or.inl (by omega)
  · rw [same]
    refine vote.imp_right fun ⟨now, given⟩ => ⟨now, ?_⟩
    rcases voted with voted | none
    · rw [voted, given]
    · exact absurd (given.symm.trans none) named

theorem addPeers_steady (ps : List Int) (r : Replica) :
    Steady r (ps.foldl addPeer r) ∧ (ps.foldl addPeer r).hist = r.hist ∧
      (ps.foldl addPeer r).id = r.id := by
  induction ps generalizing r with
  | nil => exact ⟨.refl r, rfl, rfl⟩
  | cons p ps ih =>
      obtain ⟨steady, same⟩ := ih (r.addPeer p)
      have first : Steady r (r.addPeer p) := ⟨rfl, rfl, fun _ => rfl⟩
      exact ⟨first.trans steady, same⟩

theorem Remembers.initialise (id : Int) (config : IntMap ServerInfo) :
    (initialise id config).Remembers := by
  obtain ⟨steady, _⟩ := addPeers_steady (config.keys.filter (· ≠ id))
    { id := id, state := { clusterConfig := config : RaftState }.persist }
  refine ⟨steady.stored rfl, fun candidate term mem => ?_⟩
  rw [(initialise_fresh id config).hist] at mem
  cases mem

/-- A replica that is started again goes by what it has loaded. -/
theorem Remembers.restart (config : IntMap ServerInfo)
    (votes : ∀ candidate term, .voted candidate term ∈ r.hist → candidate ≠ -1 ∧
      (term < r.state.pStore.currentTerm ∨
        (term = r.state.pStore.currentTerm ∧ r.state.pStore.votedFor = candidate))) :
    (r.restart config).Remembers := by
  obtain ⟨steady, hist, _⟩ := addPeers_steady (config.keys.filter (· ≠ r.id))
    { id := r.id
      state := ({
        currentTerm := r.state.pStore.currentTerm
        votedFor := r.state.pStore.votedFor
        logs := r.state.logs.bootstrap
        clusterConfig := config } : RaftState).persist
      voteThreads := r.voteThreads.map fun t => { t with finished := true }
      appendThreads := r.appendThreads.map fun t => { t with finished := true }
      promises := { nextHandle := r.promises.nextHandle }
      db := r.db
      hist := r.hist }
  refine ⟨steady.stored rfl, fun candidate term mem => ?_⟩
  have mem : .voted candidate term ∈ r.hist := hist ▸ mem
  rw [Replica.restart, steady.term, steady.votedFor]
  exact votes candidate term mem

end Replica

namespace Cluster
variable {storeDir : String} {config : Int → IntMap ServerInfo} {c c' : Cluster} {a : Action}
  {q : Int}

theorem Transition.remembers (tr : Transition c a c') (bare : ∀ p, (c.node p).Bare)
    (m : (c.node q).Remembers) (ok : c.server a = q → c.HoldsVote a) :
    (c'.node q).Remembers := by
  obtain ⟨kept, stored⟩ := tr.keepsTerm bare (q := q)
  have kept := kept ok
  refine ⟨stored m.stored, fun candidate term mem => ?_⟩
  generalize voted : Event.voted candidate term = e at mem
  have self (r : Int) (x : Replica) : (c.set r x).node r = x := Function.update_self _ _ _
  rcases tr.recorded (by rw [← voted]; rfl) mem with
    ⟨_, _, old⟩ | ⟨now, timeout, role, elapsed⟩ |
      ⟨r, now, k, t, args, ht, ha, rfl, member, grants⟩ | _
  · exact m.keep kept (voted ▸ old)
  · cases voted
    have named : (c.node q).id ≠ -1 := ok rfl
    refine ⟨named, Or.inr ?_⟩
    cases tr
    rw [self, Replica.electionTick, if_pos ⟨role, elapsed⟩]
    exact ⟨rfl, rfl⟩
  · cases voted
    have named : args.candidateId ≠ -1 := ok (by simp [server, ht]) t ht args ha
    refine ⟨named, Or.inr ?_⟩
    cases tr with
    | voteDeliver _ _ _ t' args' ht' ha' _ =>
        obtain rfl : t' = t := Option.some.inj (ht'.symm.trans ht)
        obtain rfl : args' = args := Option.some.inj (ha'.symm.trans ha)
        rw [pushVoteReply_state, self]
        simp only [Replica.requestVote, if_neg (not_not.mpr member), if_pos grants]
        exact ⟨grants.1, rfl⟩
  · cases voted

/-- Between two steps a replica has stored the vote it has in memory, and that is its
vote of the term. -/
structure Steadfast (q : Int) (c : Cluster) : Prop where
  bare : ∀ r, (c.node r).Bare
  id : (c.node q).id = q
  remembers : (c.node q).Remembers

theorem KeepsVote.loaded_mem {r : Int} {n : ℕ} {file : List LogEntry} (h : Steadfast q c)
    (ok : c.KeepsVote q (.crash r a n file)) (here : r = q) :
    loaded storeDir c q a n ∈ (c.node q).state.saved :: saves q c a := by
  have whole := (ok here).2.found_mem
  rw [h.remembers.stored] at whole
  rwa [loaded, PersistentStore.crash_eq, h.remembers.stored]

/-- What a crash leaves covers every vote the replica has given. -/
theorem Steadfast.loaded_votes (h : Steadfast q c) {p : PersistentStore}
    (found : p ∈ (c.node q).state.saved :: saves q c a) (ok : c.server a = q → c.HoldsVote a)
    (candidate term : Int) (given : .voted candidate term ∈ (c.node q).hist) :
    candidate ≠ -1 ∧ (term < p.currentTerm ∨ (term = p.currentTerm ∧ p.votedFor = candidate)) := by
  have vote := h.remembers.votes candidate term given
  rcases List.mem_cons.mp found with rfl | stored
  · exact vote
  · cases hs : c.step a with
    | none => simp [saves, hs] at stored
    | some c' =>
      rcases mem_saves hs h.bare h.remembers.stored stored with rfl | later
      · have kept := ((Transition.of_step hs).2.keepsTerm h.bare).1 ok
        exact h.remembers.keep kept given
      · exact ⟨vote.1, Or.inl (by unfold currentTerm at later; omega)⟩

theorem Steadfast.preserved {i : Accident} (h : Steadfast q c) (ok : c.KeepsVote q i)
    (hs : c.perish storeDir config i = some c') : Steadfast q c' := by
  cases i with
  | step a =>
      have tr := (Transition.of_step hs).2
      have changes := tr.changes h.bare (c.abides_free a)
      refine ⟨fun r => (h.bare r).changes (changes r), ?_, tr.remembers h.bare h.remembers ok⟩
      exact Replica.Changes.preserves (I := fun r => r.id = q) (changes q)
        (fun _ _ same ch => ch.id.trans same) h.id
  | crash r a n file =>
      obtain ⟨_, rfl⟩ := Option.ite_none_right_eq_some.mp hs |>.imp_right Option.some.inj
      refine ⟨fun p => ?_, ?_, ?_⟩
      · by_cases e : p = r
        · subst e
          rw [set_node, Function.update_self]
          have killed : ((c.node p).killed (loaded storeDir c p a n) file).Bare :=
            ⟨(h.bare p).threads, (h.bare p).handlers⟩
          exact killed.restart (config p)
        · simpa only [set_node, Function.update_of_ne e] using h.bare p
      · by_cases e : q = r
        · subst e
          rw [set_node, Function.update_self]
          exact (Replica.addPeers_steady _ _).2.2.trans h.id
        · simpa only [set_node, Function.update_of_ne e] using h.id
      · by_cases e : q = r
        · subst e
          rw [set_node, Function.update_self]
          exact .restart _ (h.loaded_votes (ok.loaded_mem h rfl) (ok rfl).1)
        · simpa only [set_node, Function.update_of_ne e] using h.remembers

theorem voteSurvives {servers : List Int} {h : List (Cluster × Accident)}
    (run : Run (perish storeDir config) (launch servers config) h c)
    (ok : Meets (KeepsVote q) h) : Meets (VoteSurvives storeDir q) h := by
  suffices inv : Steadfast q c ∧ Meets (VoteSurvives storeDir q) h from inv.2
  refine run.invariant (I := fun h c => Steadfast q c ∧ Meets (VoteSurvives storeDir q) h) ok
    ⟨⟨fun p => initialise_bare p (config p), ?_, ?_⟩, fun _ none => absurd none List.not_mem_nil⟩ ?_
  · exact (Replica.initialise_fresh q (config q)).id
  · exact .initialise q (config q)
  · intro h c i c' ⟨steadfast, past⟩ ok hs
    refine ⟨steadfast.preserved ok hs, Meets.cons.mpr ⟨?_, past⟩⟩
    cases i with
    | step a => exact True.intro
    | crash r a n file =>
        intro here
        have found := @KeepsVote.loaded_mem storeDir c a q r n file steadfast ok here
        refine ⟨found, fun candidate given => ?_⟩
        obtain ⟨_, earlier | ⟨_, voted⟩⟩ :=
          steadfast.loaded_votes found (ok here).1 candidate _ given
        · exact absurd earlier (Int.lt_irrefl _)
        · exact voted

/-- Server 3 has voted for server 1 in term 1, and is killed when it becomes a candidate
of term 2, after `n` file operations of its store. -/
def killedVoter (n : ℕ) : List Accident :=
  plainElection.map .step ++ [.crash 3 (.electionTick 3 50 5) n []]

theorem voteSurvives_killedVoter :
    (outcome (perish "" fun _ => threeServers) (fixed threeServers) (killedVoter 6)).1.length = 5 ∧
    Meets (VoteSurvives "" 3)
      (outcome (perish "" fun _ => threeServers) (fixed threeServers) (killedVoter 6)).1 :=
  ⟨by decide +kernel, @voteSurvives _ _ _ 3 threeServers.keys _ (outcome_run _ _ _)
    (by decide +kernel)⟩

/-- Killed between the two renames, it is in term 1 with its own vote. -/
theorem not_voteSurvives : ¬ ∀ (storeDir : String) (servers : List Int)
    (config : Int → IntMap ServerInfo) (q : Int) (h : List (Cluster × Accident)) (c : Cluster),
    Run (perish storeDir config) (launch servers config) h c →
      Meets (VoteSurvives storeDir q) h := by
  intro always
  let c := (outcome (perish "" fun _ => threeServers) (fixed threeServers)
    (plainElection.map .step)).2
  have member : (3 : Int) ∈ c.servers := by decide +kernel
  obtain ⟨_, killed⟩ : ∃ c', perish "" (fun _ => threeServers) c
      (.crash 3 (.electionTick 3 50 5) 3 []) = some c' := by
    rw [perish, if_pos member]
    exact ⟨_, rfl⟩
  have survives : VoteSurvives "" 3 c (.crash 3 (.electionTick 3 50 5) 3 []) :=
    (always "" threeServers.keys (fun _ => threeServers) 3 _ _
      (.next (outcome_run _ _ _) killed)).head
  obtain ⟨_, votes⟩ := survives rfl
  have given : (c.node 3).hist = [.voted 1 1] := rfl
  have term : (loaded "" c 3 (.electionTick 3 50 5) 3).currentTerm = 1 := by
    rw [loaded, PersistentStore.crash_eq]
    decide +kernel
  have voted : (loaded "" c 3 (.electionTick 3 50 5) 3).votedFor = 3 := by
    rw [loaded, PersistentStore.crash_eq]
    decide +kernel
  have forgotten := votes 1 (by rw [given, term]; exact List.mem_singleton_self _)
  rw [voted] at forgotten
  exact absurd forgotten (by decide)

end Cluster
end OhMyDb
