import OhMyDb.Raft.Safety
import OhMyDb.Raft.Stepwise

/-!
What a replica has handed to the executer is the log up to `CommitIndex`. Nothing in
`AppendEntries` keeps it from removing what has been applied, so the runs are those in
which the elections and the commits are sound.
-/

namespace OhMyDb
open Execution
open LeaderLog (Certified)

/-- The operations of a log with their indices. -/
def indexed (items : List LogEntry) : List (Int × RaftOp) :=
  items.mapIdx fun i e => ((i : Int), e.op)

@[simp] theorem indexed_length (items : List LogEntry) : (indexed items).length = items.length :=
  List.length_mapIdx

theorem indexed_getElem? (items : List LogEntry) (i : ℕ) :
    (indexed items)[i]? = items[i]?.map fun e => ((i : Int), e.op) :=
  List.getElem?_mapIdx

theorem indexed_ops (items : List LogEntry) :
    (indexed items).map (·.2) = items.map (·.op) := by
  refine List.ext_getElem? fun i => ?_
  rw [List.getElem?_map, indexed_getElem?, List.getElem?_map, Option.map_map]
  rfl

theorem indexed_append (items : List LogEntry) (e : LogEntry) {n : ℕ} (le : n ≤ items.length) :
    (indexed (items ++ [e])).take n = (indexed items).take n := by
  rw [indexed, List.mapIdx_append, List.take_append_of_le_length (by simpa using le)]
  rfl

theorem indexed_take (items : List LogEntry) {n m : ℕ} (le : m ≤ n) :
    (indexed (items.take n)).take m = (indexed items).take m := by
  refine List.ext_getElem? fun i => ?_
  by_cases lt : i < m
  · rw [List.getElem?_take_of_lt lt, List.getElem?_take_of_lt lt, indexed_getElem?,
      indexed_getElem?, List.getElem?_take_of_lt (lt.trans_le le)]
  · rw [List.getElem?_eq_none, List.getElem?_eq_none] <;> simp <;> omega

namespace Replica
variable {R : Rules} {r r' : Replica}

/-- `CommitIndex` is inside the log, and the operations pushed to `raftOut_` are those
of the log up to it, in order. -/
structure ExecutesLog (r : Replica) : Prop where
  floor : -1 ≤ r.state.commitIndex
  inside : r.state.commitIndex < r.state.logs.size
  pushed : r.pushed.reverse = (indexed r.state.logs.items).take (r.state.commitIndex + 1).toNat

/-- Nothing that has been applied is cut off. -/
def Rules.applied : Rules where
  cut r n := r.state.commitIndex < n

structure Executes (r : Replica) : Prop extends ExecutesLog r where
  lastApplied : r.state.lastApplied = r.state.commitIndex

theorem newlyCommitted_eq {s : RaftState} (floor : -1 ≤ s.lastApplied) :
    newlyCommitted s = ((indexed s.logs.items).drop (s.lastApplied + 1).toNat).take
      (s.commitIndex - s.lastApplied).toNat := by
  obtain ⟨a, ha⟩ := Int.eq_ofNat_of_zero_le (show 0 ≤ s.lastApplied + 1 by omega)
  have read (j : ℕ) : ((s.logs.at? (s.lastApplied + 1 + j)).map fun e =>
      (s.lastApplied + 1 + j, e.op)) = (indexed s.logs.items)[a + j]? := by
    rw [indexed_getElem?, ha, LogVector.at?, if_pos (by omega), ← Int.natCast_add,
      Int.toNat_natCast]
  simp only [newlyCommitted, read]
  rw [List.filterMap_range_getElem?, ha, Int.toNat_natCast]

theorem newlyCommitted_ops {s : RaftState} (floor : -1 ≤ s.lastApplied) :
    (newlyCommitted s).map (·.2) = ((s.logs.items.drop (s.lastApplied + 1).toNat).take
      (s.commitIndex - s.lastApplied).toNat).map (·.op) := by
  rw [newlyCommitted_eq floor, List.map_take, List.map_drop, indexed_ops, List.map_take,
    List.map_drop]

theorem pushed_of_hist {es : List Event} (hist : r'.hist = es ++ r.hist)
    (other : ∀ e ∈ es, ∀ i op, e ≠ .pushedOut i op) : r'.pushed = r.pushed := by
  unfold pushed
  rw [hist, List.filterMap_append]
  refine (congrArg (· ++ _) (List.filterMap_eq_nil_iff.mpr fun e he => ?_)).trans
    (List.nil_append _)
  cases e with
  | pushedOut i op => exact absurd rfl (other _ he i op)
  | _ => rfl

theorem queueCommitted_pushed (r : Replica) :
    r.queueCommitted.pushed.reverse = r.pushed.reverse ++ newlyCommitted r.state := by
  have told (ps : List (Int × RaftOp)) (hist : List Event) :
      pushed { r with hist := (ps.map fun p => .pushedOut p.1 p.2) ++ hist } =
        ps ++ pushed { r with hist := hist } := by
    induction ps with
    | nil => rfl
    | cons p ps ih => exact congrArg (p :: ·) ih
  have queued := told (newlyCommitted r.state).reverse r.hist
  rw [List.map_reverse] at queued
  exact (congrArg List.reverse queued).trans (by rw [List.reverse_append, List.reverse_reverse])

/-- What has been applied stays where it is. -/
theorem Executes.keep (h : r.Executes) (commitIndex : r'.state.commitIndex = r.state.commitIndex)
    (lastApplied : r'.state.lastApplied = r.state.lastApplied)
    (inside : r.state.commitIndex < r'.state.logs.size)
    (items : (indexed r'.state.logs.items).take (r.state.commitIndex + 1).toNat =
      (indexed r.state.logs.items).take (r.state.commitIndex + 1).toNat)
    (pushed : r'.pushed = r.pushed) :
    r'.Executes ∧ r.state.commitIndex ≤ r'.state.commitIndex := by
  refine ⟨⟨⟨?_, ?_, ?_⟩, ?_⟩, commitIndex.ge⟩
  · exact commitIndex ▸ h.floor
  · exact commitIndex ▸ inside
  · rw [pushed, commitIndex, items]
    exact h.pushed
  · rw [lastApplied, commitIndex]
    exact h.lastApplied

theorem Executes.append (h : r.Executes) (e : LogEntry)
    (commitIndex : r'.state.commitIndex = r.state.commitIndex)
    (lastApplied : r'.state.lastApplied = r.state.lastApplied)
    (items : r'.state.logs.items = r.state.logs.items ++ [e]) (hist : r'.hist = r.hist) :
    r'.Executes ∧ r.state.commitIndex ≤ r'.state.commitIndex := by
  have inside := h.inside
  unfold LogVector.size at inside
  refine h.keep commitIndex lastApplied ?_ ?_ (by unfold Replica.pushed; rw [hist])
  · rw [LogVector.size, items, List.length_append]
    omega
  · rw [items]
    exact indexed_append _ e (by omega)

theorem Executes.commit (h : r.Executes) {i : Int}
    (range : r.state.commitIndex < i ∨ i = r.state.logs.size - 1)
    (inside : i < r.state.logs.size) :
    { r with state := { r.state with commitIndex := i } }.queueCommitted.Executes ∧
      r.state.commitIndex ≤ i := by
  have floor := h.floor
  have before := h.inside
  have le : r.state.commitIndex ≤ i := by omega
  refine ⟨⟨⟨floor.trans le, inside, ?_⟩, rfl⟩, le⟩
  rw [queueCommitted_pushed, newlyCommitted_eq (by rw [h.lastApplied]; exact floor)]
  change r.pushed.reverse ++ _ = (indexed r.state.logs.items).take (i + 1).toNat
  rw [h.pushed]
  simp only [h.lastApplied]
  rw [← List.take_add]
  congr 1
  omega

theorem Executes.change (h : r.Executes) (ch : Change .applied r r') :
    r'.Executes ∧ r.state.commitIndex ≤ r'.state.commitIndex := by
  have same {x : Replica} (commitIndex : x.state.commitIndex = r.state.commitIndex)
      (lastApplied : x.state.lastApplied = r.state.lastApplied)
      (items : x.state.logs.items = r.state.logs.items) (pushed : x.pushed = r.pushed) :
      x.Executes ∧ r.state.commitIndex ≤ x.state.commitIndex :=
    h.keep commitIndex lastApplied (by rw [LogVector.size, items]; exact h.inside) (by rw [items])
      pushed
  cases ch with
  | push saved op rest _ _ => exact h.append _ rfl rfl rfl rfl
  | follow hs x e rest _ _ _ _ _ => exact h.append _ rfl rfl rfl rfl
  | finish saved _ | leave hs x _ _ _ => exact same rfl rfl (LogVector.persist_items _) rfl
  | update saved u rest _ _ | updateHandler j x u _ _ _ => cases u <;> exact same rfl rfl rfl rfl
  | commit i range inside => exact h.commit range inside
  | cut n above =>
      have above : r.state.commitIndex < n := above
      have inside := h.inside
      have items : (r.truncate n).state.logs.items = r.state.logs.items.take n :=
        LogVector.resize_items _ _
      refine h.keep rfl rfl ?_ ?_ (pushed_of_hist rfl fun e he i op => ?_)
      · unfold LogVector.size at inside ⊢
        rw [items, List.length_take]
        omega
      · rw [items]
        exact indexed_take _ (by omega)
      · rintro rfl
        obtain ⟨e, _, handle⟩ := List.mem_filterMap.mp (List.mem_reverse.mp he)
        cases it : e.op.promiseHandle <;> rw [it] at handle <;> cases handle
  | record e remark =>
      refine same rfl rfl rfl (@pushed_of_hist r _ [e] rfl fun e' he i op => ?_)
      rintro rfl
      obtain rfl := List.mem_singleton.mp he
      cases remark
  | execute op rest ok _ _ =>
      refine same rfl rfl rfl (@pushed_of_hist r _ (_ ++ [_]) (List.append_cons _ _ _)
        fun e he i op => ?_)
      rintro rfl
      rcases List.mem_append.mp he with he | he
      · obtain ⟨_, _, taken⟩ := List.mem_map.mp he
        cases taken
      · cases List.mem_singleton.mp he
  | discard j op it ret _ _ => exact same rfl rfl rfl rfl
  | _ => exact same rfl rfl rfl rfl

theorem Executes.initialise (id : Int) (config : IntMap ServerInfo) :
    (initialise id config).Executes := by
  have fresh := initialise_fresh id config
  refine ⟨⟨?_, ?_, ?_⟩, ?_⟩ <;>
    simp [fresh.commitIndex, fresh.lastApplied, fresh.logs, fresh.hist, pushed, indexed,
      LogVector.size]

/-- Where the log is cut inside, the entry that takes the place is another one. -/
theorem cut_differs {args : AppendEntriesParams} {now : Int} {n : ℕ}
    (client : ∀ e ∈ args.entries, e.op.command.isClient = true) (cut : n ∈ r.cut args now)
    (short : n < r.state.logs.items.length) :
    (∃ l e, r.state.logs.items[n]? = some l ∧
      (r.appendEntries args now).1.state.logs.items[n]? = some e ∧ l.term ≠ e.term) ∧
    min r.state.commitIndex n ≤ (r.appendEntries args now).1.state.commitIndex := by
  obtain ⟨⟨alive, term, prev, behind⟩, rfl⟩ : (r.state.role ≠ .dead ∧
      args.term = (r.observeLeader args now).currentTerm ∧ prevMatches r.state.logs args ∧
      newEntriesIndex r.state.logs args < args.entries.length) ∧
      logInsertIndex r.state.logs args = n := Option.ite_none_right_eq_some.mp cut
    |>.imp_right Option.some.inj
  obtain ⟨x, ret, eq, sv⟩ := r.appendEntries_client now client
  have met : r.meetLeader args now = r.observeLeader args now := if_neg alive
  rw [eq]
  cases sv with
  | dead _ dead => exact absurd dead alive
  | refused _ no => exact absurd ⟨met ▸ term, prev⟩ no
  | accepted y _ _ _ merged =>
      rcases (matchingEntries_spec (r.state.logs.items.drop (args.prevLogIndex + 1).toNat)
        args.entries).2 with ended | ended | ⟨l, e, hl, he, differ⟩
      · rw [List.length_drop] at ended
        unfold logInsertIndex newEntriesIndex at short
        omega
      · exact absurd behind (Nat.not_lt.mpr ended.ge)
      · have items := merged.items
        rw [mergedItems, if_pos behind] at items
        have length : (r.state.logs.items.take (logInsertIndex r.state.logs args)).length =
            logInsertIndex r.state.logs args := by
          rw [List.length_take, Nat.min_eq_left short.le]
        rw [List.getElem?_drop] at hl
        have next : y.state.logs.items[logInsertIndex r.state.logs args]? = some e.entry := by
          rw [items, List.getElem?_append_right length.le, length, Nat.sub_self,
            List.getElem?_map, List.getElem?_drop, Nat.add_zero, newEntriesIndex, he]
          rfl
        refine ⟨⟨l, e.entry, hl, ?_, differ⟩, ?_⟩
        · rw [followCommit_logs]
          exact next
        · have inside := (List.getElem?_eq_some_iff.mp next).1
          obtain ⟨_, _, _, _, same⟩ := merged.rest
          have commitIndex : y.state.commitIndex = r.state.commitIndex := by
            rw [same]
            obtain ⟨_, _, _, _, eq⟩ := r.meetLeader_eq args now
            rw [eq]
            rfl
          rw [followCommit_commitIndex, commitIndex]
          unfold LogVector.size
          split <;> omega

end Replica

namespace Cluster
variable {config : IntMap ServerInfo} {h : List (Cluster × Action)} {b : AbstractState}
  {c c' : Cluster} {r now : Int} {k n : ℕ} {t : AppendThread} {args : AppendEntriesParams}

/-- What a replica has applied is certified before and after a step, so no request of a
sound run cuts into it. -/
theorem cut_applied (s : Simulated .executing config h c b)
    (reached : Level.executing.Reached config b) (hs : c.step (.appendDeliver r k now) = some c')
    (ok : Level.executing.Allows c (.appendDeliver r k now))
    (ht : (c.node r).appendThreads[k]? = some t) (ha : t.args = some args)
    (cut : n ∈ (c.node t.peer).cut args now) : (c.node t.peer).state.commitIndex < n := by
  obtain ⟨b', steps, s'⟩ := s.step reached rfl ok hs
  have reached' : Level.executing.Reached config b' := reached.trans steps
  have mi := (s.simulates t.peer).mirrors
  have mi' := (s'.simulates t.peer).mirrors
  have commit := mi.commit rfl
  have commit' := mi'.commit rfl
  by_contra past
  have before := (reached.agreed rfl).commit t.peer
  have after := (reached'.agreed rfl).commit t.peer
  have short : n < (c.node t.peer).state.logs.items.length := by
    have inside := (reached.agreed rfl).commit_le t.peer
    rw [mi.log, abstractLog_length] at inside
    omega
  have state : (c'.node t.peer).state = ((c.node t.peer).appendEntries args now).1.state := by
    cases (Transition.of_step hs).2 with
    | appendDeliver _ _ _ t' args' ht' ha' _ =>
        obtain rfl : t' = t := Option.some.inj (ht'.symm.trans ht)
        obtain rfl : args' = args := Option.some.inj (ha'.symm.trans ha)
        rw [settleAppend_state, set_node, Function.update_self]
  obtain ⟨⟨l, e, hl, he, differ⟩, kept⟩ := Replica.cut_differs
    ((s.run.static r).args t (List.mem_of_getElem? ht) args ha) cut short
  rw [← state] at he kept
  have mine : ((b.log t.peer).take (b.commit t.peer))[n]? = some ⟨l.term, l.op.command⟩ := by
    rw [List.getElem?_take_of_lt (by omega), mi.log, abstractLog_getElem?, hl]
    rfl
  have theirs : ((b'.log t.peer).take (b'.commit t.peer))[n]? = some ⟨e.term, e.op.command⟩ := by
    rw [List.getElem?_take_of_lt (by omega), mi'.log, abstractLog_getElem?, he]
    rfl
  have same := ((reached.evolves steps).certified _ _ before).entry after
    (reached'.sound nofun) mine theirs
  exact differ (congrArg LeaderLog.Entry.term same)

/-- No request removes an entry up to `CommitIndex`. -/
def CutsAbove (c : Cluster) : Action → Prop
  | .appendDeliver r k now => ∀ t ∈ (c.node r).appendThreads[k]?, ∀ args ∈ t.args,
      ∀ n ∈ (c.node t.peer).cut args now, (c.node t.peer).state.commitIndex < n
  | _ => True

theorem CutsAbove.abides {a : Action} (above : c.CutsAbove a) : c.Abides .applied a := by
  cases a with
  | appendDeliver r k now =>
      refine ⟨True.intro, fun t ht args ha n hn => ⟨?_, fun _ _ => True.intro⟩⟩
      simpa only [Replica.Rules.applied, Replica.observeLeader_commitIndex] using
        above t ht args ha n hn
  | _ => simp [Abides, Replica.Rules.applied]

theorem cutsAbove (s : Simulated .executing config h c b)
    (reached : Level.executing.Reached config b) {a : Action} (hs : c.step a = some c')
    (ok : Level.executing.Allows c a) : c.CutsAbove a := by
  cases a with
  | appendDeliver r k now =>
      exact fun t ht args ha n hn => cut_applied s reached hs ok ht ha hn
  | _ => exact True.intro

/-- Every replica has executed its log up to `CommitIndex`, `CommitIndex` has never been
set back, and no request has removed what was executed. -/
structure HistoryIsLog (h : List (Cluster × Action)) (c : Cluster) : Prop where
  executes : ∀ q, (c.node q).ExecutesLog
  forward : ∀ p ∈ h, ∀ c', p.1.step p.2 = some c' →
    ∀ q, (p.1.node q).state.commitIndex ≤ (c'.node q).state.commitIndex
  keeps : Meets CutsAbove h

theorem historyIsLog (f : FixedRun config h c) (noStepBack : Meets NoStepBack h)
    (thisTerm : Meets VotesOfThisTerm h) (single : Meets SingleVote h)
    (appends : Meets LeaderAppends h) (replies : Meets RepliesOfThisTerm h)
    (sends : Meets LeaderSends h) : HistoryIsLog h c := by
  have allowed := allows_executing noStepBack thisTerm single appends replies sends
  have keeps : Meets CutsAbove h := by
    intro p hp
    obtain ⟨h', _, before, hs, sub⟩ := f.run.before hp
    have f' : FixedRun config h' p.1 := ⟨before, fun q hq => f.membership q (sub hq)⟩
    obtain ⟨b, reached, s⟩ := simulated f' fun q hq => allowed q (sub hq)
    exact cutsAbove s reached hs (allowed p hp)
  have executes {h' : List (Cluster × Action)} {c' : Cluster}
      (run : Run step (fixed config) h' c') (sub : h' ⊆ h) (q : Int) : (c'.node q).Executes :=
    replicas_invariant (I := fun _ r => r.Executes) run (fun p hp => (keeps p (sub hp)).abides)
      (fun q => .initialise q config) (fun _ _ _ ex ch => (ex.change ch).1) q
  refine ⟨fun q => (executes f.run (fun _ hp => hp) q).toExecutesLog, fun p hp c' hs q => ?_, keeps⟩
  obtain ⟨h', _, before, _, sub⟩ := f.run.before hp
  have moved := (Transition.of_step hs).2.changes (bare before) (keeps p hp).abides q
  refine (Replica.Changes.preserves (I := fun x =>
    x.Executes ∧ (p.1.node q).state.commitIndex ≤ x.state.commitIndex) moved ?_
    ⟨executes before sub q, le_rfl⟩).2
  intro x y ⟨ex, le⟩ ch
  obtain ⟨ex', le'⟩ := ex.change ch
  exact ⟨ex', le.trans le'⟩

theorem historyIsLog_replicatedPut :
    ((outcome step (fixed threeServers) replicatedPut).2.node 3).state.commitIndex = 0 ∧
    HistoryIsLog (outcome step (fixed threeServers) replicatedPut).1
      (outcome step (fixed threeServers) replicatedPut).2 :=
  ⟨by decide +kernel, historyIsLog (fixedRun_outcome _ _ (by decide +kernel)) (by decide +kernel)
    (by decide +kernel) (by decide +kernel) (by decide +kernel) (by decide +kernel)
    (by decide +kernel)⟩

/-- The vote server 3 has given server 2 in term 1 arrives when server 1, elected for
term 2, has executed a PUT. Server 2 takes it for a vote of term 3 and sends server 1 a
PUT of its own. -/
def lateVote : List Action :=
  [.electionTick 2 10 5, .voteSend 2 0, .voteSend 2 1, .voteDeliver 2 0 11, .voteDeliver 2 1 11,
    .electionTick 1 30 5, .voteSend 1 0, .voteSend 1 1, .voteDeliver 1 0 31, .voteDeliver 1 1 31,
    .voteReturn 1 0 ⟨2, true⟩ 32] ++
  submitPut 1 5 7 ++
    [.appendSend 1 0 0, .appendDeliver 1 0 40, .appendReturn 1 0 ⟨2, true⟩ 41,
      .electionTick 2 60 5, .voteReturn 2 0 ⟨1, true⟩ 61] ++
  submitPut 2 5 8 ++ [.appendSend 2 1 0, .appendDeliver 2 1 70]

/-- Server 1 has executed another operation than the one in its log. -/
theorem not_historyIsLog : ¬ ∀ (config : IntMap ServerInfo) (h : List (Cluster × Action))
    (c : Cluster), FixedRun config h c → HistoryIsLog h c := by
  intro always
  have fixedRun := fixedRun_outcome threeServers lateVote (by decide +kernel)
  have executes := ((always _ _ _ fixedRun).executes 1).pushed
  have pushed : (((outcome step (fixed threeServers) lateVote).2.node 1).pushed.reverse.map
      fun p => p.2.command) = [.put 5 7] := by
    decide +kernel
  have log : ((indexed ((outcome step (fixed threeServers) lateVote).2.node
      1).state.logs.items).map fun p => p.2.command) = [.put 5 8] := by
    decide +kernel
  have differ := congrArg (List.map fun p => p.2.command) executes
  rw [pushed, List.map_take, log] at differ
  have other := List.mem_of_mem_take (differ ▸ List.mem_singleton_self (Command.put 5 7))
  exact absurd other (by decide)

end Cluster
end OhMyDb
