import OhMyDb.Membership.Peers

/-!
What has been written to the log file when an entry is acknowledged. The append loops
write once, at their end, and other calls are served while they have released the mutex.
-/

namespace OhMyDb
open Execution

/-- What `persist` writes of an entry. -/
def LogEntry.stored (e : LogEntry) : LogEntry := { e with op := e.op.withoutPromise }

namespace LogVector
variable {v : LogVector}

/-- The file holds the entries that count as persisted. -/
structure OnDisk (v : LogVector) : Prop where
  bound : v.persistedItems ≤ v.items.length
  file : v.file = (v.items.take v.persistedItems).map LogEntry.stored

/-- The entries 0 to `m` are in the log, and in its file. -/
def Written (v : LogVector) (m : Int) : Prop :=
  ∀ i : ℕ, (i : Int) ≤ m → ∃ e, v.items[i]? = some e ∧ v.file[i]? = some e.stored

theorem OnDisk.written_iff (h : v.OnDisk) (m : Int) : v.Written m ↔ m < v.persistedItems := by
  constructor
  · intro written
    by_contra past
    obtain ⟨e, _, stored⟩ := written v.persistedItems (Int.not_lt.mp past)
    have inside := (List.getElem?_eq_some_iff.mp stored).1
    rw [h.file, List.length_map, List.length_take] at inside
    omega
  · intro before i le
    have lt : i < v.persistedItems := by omega
    have inside : i < v.items.length := Nat.lt_of_lt_of_le lt h.bound
    refine ⟨v.items[i], List.getElem?_eq_getElem inside, ?_⟩
    rw [h.file, List.getElem?_map, List.getElem?_take_of_lt lt, List.getElem?_eq_getElem inside]
    rfl

theorem OnDisk.pushBack (h : v.OnDisk) (e : LogEntry) : (v.pushBack e).OnDisk where
  bound := by simpa using Nat.le_succ_of_le h.bound
  file := by
    rw [pushBack_file, pushBack_items, pushBack_persistedItems,
      List.take_append_of_le_length h.bound]
    exact h.file

theorem OnDisk.resize (h : v.OnDisk) (n : ℕ) : (v.resize n).OnDisk := by
  have bound := h.bound
  unfold LogVector.resize
  split
  · refine ⟨?_, ?_⟩
    · simp only [List.length_take]
      omega
    · simp only [h.file, List.take_take, ← List.map_take, Nat.min_self]
      congr 2
      omega
  · refine ⟨?_, ?_⟩
    · simp only [List.length_take]
      omega
    · simp only [h.file, List.take_take]
      congr 2
      omega

theorem OnDisk.persist (h : v.OnDisk) :
    v.persist.OnDisk ∧ v.persist.persistedItems = v.items.length := by
  have bound := h.bound
  unfold LogVector.persist
  split
  · next same => exact ⟨h, same.symm⟩
  · next ne =>
    have less : ¬ v.items.length ≤ v.persistedItems := by omega
    simp only [LogVector.resize, if_neg less, List.take_length]
    refine ⟨⟨Nat.le_refl _, ?_⟩, trivial⟩
    change v.file ++ (v.items.drop v.persistedItems).map LogEntry.stored = _
    rw [h.file, ← List.map_append, List.take_append_drop, List.take_length]

theorem resize_settled (h : v.persistedItems = v.items.length) (n : ℕ) :
    (v.resize n).persistedItems = (v.resize n).items.length := by
  unfold LogVector.resize
  split <;> simp only [List.length_take] <;> omega

end LogVector

namespace RaftThread

/-- The thread is inside its append loop. -/
def appends : RaftThread → Bool
  | .updatingPeers _ _ _ | .relocking _ _ => true
  | .top | .swapped | .isLeader | .spawning _ | .sleeping => false

@[simp] theorem afterPush_appends (saved : Int) (ops : List RaftOp) (u : Option PeerUpdate) :
    (afterPush saved ops u).appends = true := by
  cases u <;> rfl

end RaftThread

namespace Replica
variable {R : Rules} {r r' : Replica}

/-- An append loop has released the mutex, of the leader's thread or of a call. -/
def Suspended (r : Replica) : Prop := r.raftThread.appends = true ∨ r.handlers ≠ []

instance (r : Replica) : Decidable r.Suspended := inferInstanceAs (Decidable (_ ∨ _))

/-- Entries that are not in the file belong to a loop that is suspended. -/
structure Persists (r : Replica) : Prop where
  onDisk : r.state.logs.OnDisk
  settled : ¬ r.Suspended → r.state.logs.persistedItems = r.state.logs.items.length

theorem Persists.like (h : r.Persists) (logs : r'.state.logs = r.state.logs)
    (suspended : r.Suspended → r'.Suspended) : r'.Persists where
  onDisk := logs ▸ h.onDisk
  settled no := by
    rw [logs]
    exact h.settled fun yes => no (suspended yes)

theorem Persists.persistLogs (h : r.Persists) (thread : RaftThread) (hs : List AppendHandler) :
    { r.persistLogs with raftThread := thread, handlers := hs }.Persists where
  onDisk := h.onDisk.persist.1
  settled _ := h.onDisk.persist.2.trans (by rw [Replica.persistLogs, LogVector.persist_items])

theorem Persists.change (h : r.Persists) (ch : Change R r r') : r'.Persists := by
  cases ch with
  | swap thread | check thread _ | spawn _ thread | clear thread =>
      refine h.like rfl (Or.imp_left fun yes => ?_)
      rw [thread] at yes
      cases yes
  | begin _ => exact h.like rfl fun _ => Or.inl rfl
  | push saved op rest _ _ =>
      refine ⟨h.onDisk.pushBack _, fun no => absurd (Or.inl ?_) no⟩
      exact RaftThread.afterPush_appends _ _ _
  | update saved u rest _ _ => cases u <;> exact h.like rfl fun _ => Or.inl rfl
  | finish saved _ => exact h.persistLogs _ r.handlers
  | cut n _ =>
      exact ⟨h.onDisk.resize n, fun no => LogVector.resize_settled (h.settled no) n⟩
  | enter | again => exact h.like rfl fun _ => Or.inr (by simp)
  | follow hs x e rest _ _ _ _ _ =>
      exact ⟨h.onDisk.pushBack _, fun no => absurd (Or.inr (by simp)) no⟩
  | updateHandler j x u at_ _ _ =>
      have kept : r.handlers.set j { x with update := none } ≠ [] := by
        intro none
        have inside := (List.getElem?_eq_some_iff.mp at_).1
        rw [← List.length_set, none] at inside
        exact absurd inside (Nat.not_lt_zero _)
      cases u <;> exact h.like rfl fun _ => Or.inr kept
  | leave hs x _ _ _ => exact h.persistLogs r.raftThread hs
  | commit i _ _ => exact h.like rfl fun yes => yes
  | _ => exact h.like rfl fun yes => yes

theorem Persists.initialise (id : Int) (config : IntMap ServerInfo) :
    (initialise id config).Persists := by
  have fresh := initialise_fresh id config
  refine ⟨⟨?_, ?_⟩, fun _ => ?_⟩ <;> simp [fresh.logs]

/-- The last index a request covers. -/
def lastIndex (args : AppendEntriesParams) : Int := args.prevLogIndex + args.entries.length

/-- A request is accepted that has nothing to add to the log. -/
def HasAll (r : Replica) (args : AppendEntriesParams) : Prop :=
  r.state.role ≠ .dead ∧ r.state.currentTerm ≤ args.term ∧ prevMatches r.state.logs args ∧
    newEntriesIndex r.state.logs args = args.entries.length

instance (r : Replica) (args : AppendEntriesParams) : Decidable (r.HasAll args) :=
  inferInstanceAs (Decidable (_ ∧ _))

/-- The commit scan that a reply leads to counts the leader for index `i`. -/
def CountsItself (r : Replica) (savedCurrentTerm : Int) (reply : AppendEntriesRet) (i : ℕ) : Prop :=
  reply.success = true ∧ reply.term = savedCurrentTerm ∧ r.state.role = .leader ∧
    r.state.commitIndex < i ∧
    (r.state.logs.at? i).map (·.term) = some r.state.currentTerm ∧
    r.id ∈ r.state.clusterConfig

instance (r : Replica) (saved : Int) (reply : AppendEntriesRet) (i : ℕ) :
    Decidable (r.CountsItself saved reply i) :=
  inferInstanceAs (Decidable (_ ∧ _))

@[simp] theorem checkIndex_state (r : Replica) (e : AppendLogEntry) :
    (r.checkIndex e).state = r.state := by
  unfold checkIndex
  split <;> rfl

@[simp] theorem checkIndex_id (r : Replica) (e : AppendLogEntry) : (r.checkIndex e).id = r.id := by
  unfold checkIndex
  split <;> rfl

/-- An append loop that gets to its end writes the whole log. -/
theorem appendRest_logs {args : AppendEntriesParams} {es : List AppendLogEntry}
    {ret : AppendEntriesRet} (disk : r.state.logs.OnDisk)
    (replied : (r.appendRest args es).2 = .replied ret) :
    (r.appendRest args es).1.state.logs.OnDisk ∧
      (r.appendRest args es).1.state.logs.persistedItems = r.state.logs.items.length + es.length ∧
      ret.success = true := by
  induction es generalizing r with
  | nil =>
      rw [appendRest_nil] at replied ⊢
      cases replied
      rw [followCommit_logs]
      exact ⟨disk.persist.1, disk.persist.2, rfl⟩
  | cons e es ih =>
      rw [appendRest_cons] at replied ⊢
      cases update : e.op.command.peerUpdate r.id with
      | some u =>
          rw [update] at replied
          cases replied
      | none =>
          simp only [update] at replied ⊢
          have pushed := ih (by rw [checkIndex_state]; exact disk.pushBack _) replied
          obtain ⟨onDisk, persisted, success⟩ := pushed
          refine ⟨onDisk, persisted.trans ?_, success⟩
          rw [checkIndex_state, List.length_cons]
          simp only [Replica.append, LogVector.pushBack_items, List.length_append,
            List.length_singleton]
          omega

theorem Persists.mergeEntries_written {args : AppendEntriesParams} (h : r.Persists)
    (prev : prevMatches r.state.logs args) :
    (∀ ret, (r.mergeEntries args).2 = .replied ret → ret.success = true →
      (r.mergeEntries args).1.state.logs.Written (lastIndex args)) ↔
    (newEntriesIndex r.state.logs args = args.entries.length → r.Suspended →
      lastIndex args < r.state.logs.persistedItems) := by
  obtain ⟨start, index, inside⟩ := logInsertIndex_le prev
  have most := newEntriesIndex_le r.state.logs args
  unfold mergeEntries
  by_cases behind : newEntriesIndex r.state.logs args < args.entries.length
  · rw [if_pos behind]
    refine ⟨fun _ all => absurd behind (by omega), fun _ ret replied _ => ?_⟩
    -- what is appended is written before the reply
    have truncated := h.onDisk.resize (logInsertIndex r.state.logs args)
    obtain ⟨onDisk, persisted, _⟩ := appendRest_logs truncated replied
    rw [onDisk.written_iff, persisted, Replica.truncate, LogVector.resize_items, List.length_take,
      List.length_drop, lastIndex]
    omega
  · have all : newEntriesIndex r.state.logs args = args.entries.length := by omega
    rw [if_neg behind, followCommit_logs, h.onDisk.written_iff]
    refine ⟨fun written _ _ => written _ rfl rfl, fun before ret _ _ => ?_⟩
    by_cases suspended : r.Suspended
    · exact before all suspended
    · rw [h.settled suspended, lastIndex]
      omega

theorem Persists.appendEntries_written (h : r.Persists) (args : AppendEntriesParams) (now : Int) :
    (∀ ret, (r.appendEntries args now).2 = .replied ret → ret.success = true →
      (r.appendEntries args now).1.state.logs.Written (lastIndex args)) ↔
    (r.HasAll args → r.Suspended → lastIndex args < r.state.logs.persistedItems) := by
  have logs := r.observeLeader_logs args now
  have term := r.observeLeader_term args now
  have refused {s : RaftState} {t : Int} (no : ¬ r.HasAll args) :
      (∀ ret, AppendOutcome.replied { term := t, success := false } = .replied ret →
        ret.success = true → s.logs.Written (lastIndex args)) ↔
      (r.HasAll args → r.Suspended → lastIndex args < r.state.logs.persistedItems) :=
    ⟨fun _ all => absurd all no, fun _ ret same yes => by cases same; cases yes⟩
  by_cases dead : r.state.role = .dead
  · simp only [appendEntries, if_pos dead]
    exact refused fun all => all.1 dead
  simp only [appendEntries, if_neg dead, logs]
  by_cases accepted : args.term = (r.observeLeader args now).currentTerm ∧
      prevMatches r.state.logs args
  · rw [if_pos accepted]
    have observed : ({ r with state := r.observeLeader args now } : Replica).Persists :=
      h.like logs fun yes => yes
    have merged := @Persists.mergeEntries_written _ args observed (by rw [logs]; exact accepted.2)
    simp only [logs] at merged
    rw [merged]
    refine ⟨fun before all => before all.2.2.2, fun before all =>
      before ⟨dead, ?_, accepted.2, all⟩⟩
    omega
  · rw [if_neg accepted]
    exact refused fun all => accepted ⟨by have := all.2.1; omega, all.2.2.1⟩

/-- A loop that goes on to its end. -/
def Ends (r : Replica) (h : AppendHandler) : Prop :=
  h.update = none ∧ ∀ e ∈ h.rest, e.op.command.peerUpdate r.id = none

instance (r : Replica) (h : AppendHandler) : Decidable (r.Ends h) :=
  inferInstanceAs (Decidable (_ ∧ _))

theorem appendRest_ends {args : AppendEntriesParams} {es : List AppendLogEntry} :
    (∃ ret, (r.appendRest args es).2 = .replied ret) ↔
      ∀ e ∈ es, e.op.command.peerUpdate r.id = none := by
  induction es generalizing r with
  | nil => simp [appendRest_nil]
  | cons e es ih =>
      rw [appendRest_cons]
      cases update : e.op.command.peerUpdate r.id with
      | some u => simp [update]
      | none =>
          have id : ((r.append ⟨e.term, e.op⟩).checkIndex e).id = r.id := checkIndex_id _ _
          simp only [ih, id, List.forall_mem_cons, update, true_and]

/-- What suspended call `j` does when it goes on. -/
def resumed (r : Replica) (j : ℕ) (h : AppendHandler) : Replica × AppendOutcome :=
  ({ r with handlers := r.handlers.eraseIdx j }.checkIndex h.current).appendRest h.args h.rest

theorem Persists.resumed_written (p : r.Persists) (j : ℕ) (h : AppendHandler) :
    (h.update = none → ∀ ret, (r.resumed j h).2 = .replied ret → ret.success = true →
      (r.resumed j h).1.state.logs.Written (lastIndex h.args)) ↔
    (r.Ends h → lastIndex h.args < r.state.logs.size + h.rest.length) := by
  let x := { r with handlers := r.handlers.eraseIdx j }.checkIndex h.current
  have state : x.state = r.state := checkIndex_state _ _
  have id : x.id = r.id := checkIndex_id _ _
  have onDisk : x.state.logs.OnDisk := by
    rw [state]
    exact p.onDisk
  have logs {ret : AppendEntriesRet} (replied : (r.resumed j h).2 = .replied ret) :
      ret.success = true ∧ ((r.resumed j h).1.state.logs.Written (lastIndex h.args) ↔
        lastIndex h.args < r.state.logs.size + h.rest.length) := by
    obtain ⟨onDisk, persisted, success⟩ := appendRest_logs onDisk replied
    rw [state] at persisted
    refine ⟨success, ?_⟩
    rw [resumed, onDisk.written_iff, persisted, Int.natCast_add]
    rfl
  constructor
  · intro written ⟨go, ends⟩
    obtain ⟨ret, replied⟩ := appendRest_ends.mpr fun e he => by
      rw [id]
      exact ends e he
    exact (logs replied).2.mp (written go ret replied (logs replied).1)
  · intro long go ret replied _
    refine (logs replied).2.mpr (long ⟨go, fun e he => ?_⟩)
    rw [← id]
    exact appendRest_ends.mp ⟨ret, replied⟩ e he

theorem Persists.counts_written (h : r.Persists) (saved : Int) (reply : AppendEntriesRet) :
    (∀ i, r.CountsItself saved reply i → r.state.logs.Written i) ↔
    (r.Suspended → ∀ i < r.state.logs.items.length, r.CountsItself saved reply i →
      i < r.state.logs.persistedItems) := by
  simp only [h.onDisk.written_iff, Int.ofNat_lt]
  refine ⟨fun written _ i _ => written i, fun before i counts => ?_⟩
  have inside : i < r.state.logs.items.length := by
    obtain ⟨e, at_, _⟩ := Option.map_eq_some_iff.mp counts.2.2.2.2.1
    exact (List.getElem?_eq_some_iff.mp at_).1
  by_cases suspended : r.Suspended
  · exact before suspended i inside counts
  · rw [h.settled suspended]
    exact inside

end Replica

namespace Cluster
open Replica (lastIndex)
variable {c : Cluster}

/-- What the step acknowledges, and what it counts the leader for, has been written to the
log file when it does. -/
def WritesFirst (c : Cluster) : Action → Prop
  | .appendDeliver r k now => ∀ t ∈ (c.node r).appendThreads[k]?, ∀ args ∈ t.args, ∀ ret,
      ((c.node t.peer).appendEntries args now).2 = .replied ret → ret.success = true →
        ((c.node t.peer).appendEntries args now).1.state.logs.Written (lastIndex args)
  | .appendResume p j => ∀ h ∈ (c.node p).handlers[j]?, h.update = none →
      ∀ ret, ((c.node p).resumed j h).2 = .replied ret → ret.success = true →
        ((c.node p).resumed j h).1.state.logs.Written (lastIndex h.args)
  | .appendReturn r k reply _ => ∀ t ∈ (c.node r).appendThreads[k]?, ∀ i,
      (c.node r).CountsItself t.savedCurrentTerm reply i → (c.node r).state.logs.Written i
  | _ => True

/-- While an append loop is suspended, only entries that are persisted are acknowledged
without being appended, or counted; and a loop that ends finds the log as long as it has
left it. -/
def CoversWritten (c : Cluster) : Action → Prop
  | .appendDeliver r k _ => ∀ t ∈ (c.node r).appendThreads[k]?, ∀ args ∈ t.args,
      (c.node t.peer).HasAll args → (c.node t.peer).Suspended →
        lastIndex args < (c.node t.peer).state.logs.persistedItems
  | .appendResume p j => ∀ h ∈ (c.node p).handlers[j]?, (c.node p).Ends h →
      lastIndex h.args < (c.node p).state.logs.size + h.rest.length
  | .appendReturn r k reply _ => ∀ t ∈ (c.node r).appendThreads[k]?, (c.node r).Suspended →
      ∀ i < (c.node r).state.logs.items.length, (c.node r).CountsItself t.savedCurrentTerm reply i →
        i < (c.node r).state.logs.persistedItems
  | _ => True

instance (c : Cluster) (a : Action) : Decidable (c.CoversWritten a) :=
  match a with
  | .appendDeliver _ _ _ => inferInstanceAs (Decidable (∀ _, _ → ∀ _, _ → _ → _ → _))
  | .appendResume _ _ => inferInstanceAs (Decidable (∀ _, _ → _ → _))
  | .appendReturn _ _ _ _ => inferInstanceAs (Decidable (∀ _, _ → _ → ∀ _, _ → _ → _))
  | .electionTick _ _ _ | .voteSend _ _ | .voteDeliver _ _ _ | .voteReturn _ _ _ _
  | .voteFail _ _ | .raftImpl _ | .appendSend _ _ _ | .appendFail _ _ | .executer _ _
  | .clientGet _ _ | .clientPut _ _ _ | .addServer _ _ | .removeServer _ _ | .callStep _ _ _ =>
      inferInstanceAs (Decidable True)

theorem writesFirst_iff (h : ∀ r, (c.node r).Persists) (a : Action) :
    c.WritesFirst a ↔ c.CoversWritten a := by
  cases a with
  | appendDeliver r k now =>
      exact forall₄_congr fun t _ args _ => (h t.peer).appendEntries_written args now
  | appendResume p j =>
      exact forall₂_congr fun x _ => (h p).resumed_written j x
  | appendReturn r k reply now =>
      exact forall₂_congr fun t _ => (h r).counts_written t.savedCurrentTerm reply
  | _ => exact Iff.rfl

theorem persists {servers : List Int} {config : Int → IntMap ServerInfo}
    {h : List (Cluster × Action)} (run : Run step (launch servers config) h c) (q : Int) :
    (c.node q).Persists :=
  replicas_invariant (I := fun _ r => r.Persists) run (fun p _ => p.1.abides_free p.2)
    (fun q => .initialise q (config q)) (fun _ _ _ => Replica.Persists.change) q

theorem writesFirst {servers : List Int} {config : Int → IntMap ServerInfo}
    {h : List (Cluster × Action)} (run : Run step (launch servers config) h c) :
    Meets (fun c a => c.WritesFirst a ↔ c.CoversWritten a) h := by
  intro p hp
  obtain ⟨h', _, before, _, _⟩ := run.before hp
  exact writesFirst_iff (persists before) p.2

theorem writesFirst_replicatedPut :
    Meets WritesFirst (outcome step (fixed threeServers) replicatedPut).1 := by
  have covers : Meets CoversWritten (outcome step (fixed threeServers) replicatedPut).1 := by
    decide +kernel
  exact fun p hp => (writesFirst (outcome_run _ _ _) p hp).mpr (covers p hp)

/-- Server 1 adds server 4 and sends the change to server 3, which has released its mutex,
when the thread of the next round sends the same entry. -/
def sentAgain : List Action :=
  plainElection ++ addFourth 1 ++ List.replicate 6 (.raftImpl 1) ++
    [.appendSend 1 1 0, .appendDeliver 1 1 20, .appendSend 1 4 0]

/-- Server 3 acknowledges the entry before it is in its file. -/
theorem not_writesFirst : ¬ ∀ (servers : List Int) (config : Int → IntMap ServerInfo)
    (h : List (Cluster × Action)) (c : Cluster),
    Run step (launch servers config) h c → Meets WritesFirst h := by
  intro always
  have run := outcome_run step (fixed threeServers) sentAgain
  obtain ⟨_, served⟩ := Option.isSome_iff_exists.mp (show ((outcome step (fixed threeServers)
    sentAgain).2.step (.appendDeliver 1 4 21)).isSome = true by decide +kernel)
  have covers := (writesFirst_iff (persists run) _).mp (always _ _ _ _ (.next run served)).head
  exact absurd covers (by decide +kernel)

end Cluster
end OhMyDb
