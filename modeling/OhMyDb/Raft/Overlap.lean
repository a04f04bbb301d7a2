import OhMyDb.Raft.Handlers

/-!
`AppendEntries` for every overlap of the log with what is sent. Where entries of one
term have the same past in both logs, a request that is accepted makes the log agree
with the sender's as far as it reaches, and takes away no entry that agrees already.
-/

namespace OhMyDb
open LeaderLog (Alike Merged)

namespace Replica
variable {r x y : Replica} {args : AppendEntriesParams} {now : Int}

/-- The request is accepted. -/
def Accepts (r : Replica) (args : AppendEntriesParams) : Prop :=
  r.state.role ≠ .dead ∧ r.state.currentTerm ≤ args.term ∧ prevMatches r.state.logs args

instance (r : Replica) (args : AppendEntriesParams) : Decidable (r.Accepts args) :=
  inferInstanceAs (Decidable (_ ∧ _))

/-- The entries that an accepted request removes. -/
def removed (logs : LogVector) (args : AppendEntriesParams) : List LogEntry :=
  if newEntriesIndex logs args < args.entries.length then
    logs.items.drop (logInsertIndex logs args)
  else []

/-- The loops that append write the log, and neither commit nor complete a promise. -/
structure Writes (r : Replica) (items : List LogEntry) (ps : PromiseStore) (x : Replica) :
    Prop where
  items : x.state.logs.items = items
  commitIndex : x.state.commitIndex = r.state.commitIndex
  lastApplied : x.state.lastApplied = r.state.lastApplied
  raftOut : x.raftOut = r.raftOut
  promises : x.promises = ps

theorem Writes.trans {items items' : List LogEntry} {ps ps' : PromiseStore}
    (h : r.Writes items ps x) (h' : x.Writes items' ps' y) : r.Writes items' ps' y where
  items := h'.items
  commitIndex := h'.commitIndex.trans h.commitIndex
  lastApplied := h'.lastApplied.trans h.lastApplied
  raftOut := h'.raftOut.trans h.raftOut
  promises := h'.promises

theorem writes_persistLogs (r : Replica) :
    r.Writes r.state.logs.items r.promises r.persistLogs :=
  ⟨LogVector.persist_items _, rfl, rfl, rfl, rfl⟩

theorem writes_updatePeers (r : Replica) (u : PeerUpdate) :
    r.Writes r.state.logs.items r.promises (r.updatePeers u) := by
  cases u <;> exact ⟨rfl, rfl, rfl, rfl, rfl⟩

theorem writes_checkIndex (r : Replica) (e : AppendLogEntry) :
    r.Writes r.state.logs.items r.promises (r.checkIndex e) := by
  unfold checkIndex
  split <;> exact ⟨rfl, rfl, rfl, rfl, rfl⟩

theorem writes_append (r : Replica) (e : LogEntry) :
    r.Writes (r.state.logs.items ++ [e]) r.promises (r.append e) :=
  ⟨rfl, rfl, rfl, rfl, rfl⟩

/-- The append loop and the commit rule after it. -/
theorem appendHeld_writes (args : AppendEntriesParams) (es : List AppendLogEntry) (r : Replica) :
    ∃ y, r.Writes (r.state.logs.items ++ es.map AppendLogEntry.entry) r.promises y ∧
      appendHeld args es r = y.followCommit args.leaderCommit := by
  induction es generalizing r with
  | nil =>
      refine ⟨r.persistLogs, ?_, rfl⟩
      rw [List.map_nil, List.append_nil]
      exact r.writes_persistLogs
  | cons e es ih =>
      have first := r.writes_append e.entry
      have rest {z : Replica} (w : r.Writes (r.state.logs.items ++ [e.entry]) r.promises z) :
          ∃ y, r.Writes (r.state.logs.items ++ (e :: es).map AppendLogEntry.entry) r.promises y ∧
            appendHeld args es z = y.followCommit args.leaderCommit := by
        obtain ⟨y, later, eq⟩ := ih z
        rw [w.items, w.promises, List.append_assoc] at later
        exact ⟨y, w.trans later, eq⟩
      rw [appendHeld, applyConfig_pushLog r ⟨e.term, e.op⟩]
      cases e.op.command.peerUpdate r.id with
      | some u =>
          have updated := first.trans (writes_updatePeers _ u)
          have checked := updated.trans (writes_checkIndex _ e)
          rw [updated.items, updated.promises] at checked
          exact rest checked
      | none =>
          have checked := first.trans (writes_checkIndex _ e)
          rw [first.items, first.promises] at checked
          exact rest checked

/-- A call that finds nobody in its way where it takes the mutex again. -/
def AppendOutcome.held (args : AppendEntriesParams) (r : Replica) : AppendOutcome → Replica
  | .replied _ => r
  | .suspended update e rest => appendHeld args rest ((r.updatePeers update).checkIndex e)

theorem appendEntriesHeld_eq (r : Replica) (args : AppendEntriesParams) (now : Int) :
    r.appendEntriesHeld args now =
      (r.appendEntries args now).2.held args (r.appendEntries args now).1 := by
  unfold appendEntriesHeld
  split
  · next he => rw [he, AppendOutcome.held]
  · next he => rw [he, AppendOutcome.held]

theorem appendRest_held (args : AppendEntriesParams) (es : List AppendLogEntry) (r : Replica) :
    (r.appendRest args es).2.held args (r.appendRest args es).1 = appendHeld args es r := by
  induction es generalizing r with
  | nil => rfl
  | cons e es ih =>
      rw [appendRest_cons, appendHeld, applyConfig_pushLog r ⟨e.term, e.op⟩]
      cases e.op.command.peerUpdate r.id with
      | some u => rfl
      | none => exact ih _

theorem observeLeader_writes (r : Replica) (args : AppendEntriesParams) (now : Int) :
    r.Writes r.state.logs.items r.promises { r with state := r.observeLeader args now } :=
  ⟨congrArg LogVector.items (r.observeLeader_logs args now), r.observeLeader_commitIndex args now,
    r.observeLeader_lastApplied args now, rfl, rfl⟩

/-- The two checks of `AppendEntries`. -/
theorem accepts_iff (alive : r.state.role ≠ .dead) (args : AppendEntriesParams) (now : Int) :
    r.Accepts args ↔ args.term = (r.observeLeader args now).currentTerm ∧
      prevMatches r.state.logs args := by
  rw [observeLeader_term]
  constructor
  · rintro ⟨_, le, prev⟩
    exact ⟨(max_eq_right le).symm, prev⟩
  · rintro ⟨term, prev⟩
    exact ⟨alive, term ▸ le_max_left _ _, prev⟩

theorem Accepts.appendEntries_eq (accepts : r.Accepts args) (now : Int) :
    r.appendEntries args now = { r with state := r.observeLeader args now }.mergeEntries args := by
  have alive := accepts.1
  simp only [appendEntries, if_neg alive, observeLeader_logs,
    if_pos ((accepts_iff alive args now).mp accepts)]

theorem appendEntries_refused (alive : r.state.role ≠ .dead) (refuses : ¬ r.Accepts args)
    (now : Int) : r.appendEntries args now = ({ r with state := r.observeLeader args now },
      .replied { term := (r.observeLeader args now).currentTerm, success := false }) := by
  simp only [appendEntries, if_neg alive, observeLeader_logs,
    if_neg ((accepts_iff alive args now).not.mp refuses)]

/-- A request that is accepted: the log is merged, what is removed is aborted, and the
commit rule follows. -/
theorem Accepts.writes (accepts : r.Accepts args) (now : Int) :
    ∃ y, r.Writes (mergedItems r.state.logs args)
        ((removed r.state.logs args).foldl (fun ps e => e.op.abort ps) r.promises) y ∧
      r.appendEntriesHeld args now = y.followCommit args.leaderCommit := by
  have met := r.observeLeader_writes args now
  rw [appendEntriesHeld_eq, accepts.appendEntries_eq]
  simp only [mergeEntries, observeLeader_logs]
  unfold mergedItems removed
  by_cases behind : newEntriesIndex r.state.logs args < args.entries.length
  · rw [if_pos behind, if_pos behind, if_pos behind, appendRest_held]
    obtain ⟨y, wrote, eq⟩ := appendHeld_writes args
      (args.entries.drop (newEntriesIndex r.state.logs args))
      ({ r with state := r.observeLeader args now }.truncate (logInsertIndex r.state.logs args))
    refine ⟨y, ?_, eq⟩
    have cut : r.Writes (r.state.logs.items.take (logInsertIndex r.state.logs args))
        ((r.state.logs.items.drop (logInsertIndex r.state.logs args)).foldl
          (fun ps e => e.op.abort ps) r.promises)
        ({ r with state := r.observeLeader args now }.truncate
          (logInsertIndex r.state.logs args)) := by
      refine ⟨?_, met.commitIndex, met.lastApplied, rfl, ?_⟩ <;>
        simp only [truncate, LogVector.resize_items, observeLeader_logs]
    rw [cut.items, cut.promises] at wrote
    exact cut.trans wrote
  · rw [if_neg behind, if_neg behind, if_neg behind]
    exact ⟨_, met, rfl⟩

/-- A request that is not accepted leaves the log and what is committed as they are. -/
theorem refused_writes (refuses : ¬ r.Accepts args) (now : Int) :
    ∃ s, r.Writes r.state.logs.items r.promises { r with state := s } ∧
      s.logs = r.state.logs ∧ r.appendEntriesHeld args now = { r with state := s } := by
  rw [appendEntriesHeld_eq]
  by_cases dead : r.state.role = .dead
  · rw [appendEntries, if_pos dead]
    refine ⟨{ r.state with electionResetEvent :=
      if args.term ≥ r.state.currentTerm then now else r.state.electionResetEvent }, ?_, rfl, rfl⟩
    exact ⟨rfl, rfl, rfl, rfl, rfl⟩
  rw [appendEntries_refused dead refuses]
  exact ⟨_, r.observeLeader_writes args now, r.observeLeader_logs args now, rfl⟩

/-- Without a change of the membership the call does not let go of the mutex. -/
theorem appendEntries_held (r : Replica)
    (client : ∀ e ∈ args.entries, e.op.command.isClient = true) (now : Int) :
    ∃ ret, r.appendEntries args now = (r.appendEntriesHeld args now, .replied ret) ∧
      (ret.success = true ↔ r.Accepts args) := by
  obtain ⟨x, ret, eq, served⟩ := r.appendEntries_client now client
  have met (alive : r.state.role ≠ .dead) :
      (r.meetLeader args now).currentTerm = max r.state.currentTerm args.term := by
    rw [meetLeader, if_neg alive, observeLeader_term]
  refine ⟨ret, ?_, ?_⟩
  · rw [appendEntriesHeld_eq, eq]
    rfl
  · cases served with
    | dead _ dead => exact iff_of_false (by simp) fun accepts => accepts.1 dead
    | refused alive no =>
        refine iff_of_false (by simp) fun accepts => no ⟨?_, accepts.2.2⟩
        rw [met alive, max_eq_right accepts.2.1]
    | accepted _ alive term prev _ =>
        refine iff_of_true rfl ⟨alive, ?_, prev⟩
        rw [met alive] at term
        exact term ▸ le_max_left _ _

/-- The request carries the entries of a log from `n` up to `k`, as a sender thread writes
them. -/
structure Batch (items : List LogEntry) (n k : ℕ) (args : AppendEntriesParams) : Prop where
  first : n ≤ k
  last : k ≤ items.length
  prevLogIndex : args.prevLogIndex = n - 1
  prevLogTerm : 0 < n → ∀ e ∈ items[n - 1]?, args.prevLogTerm = e.term
  entries : abstractEntries args.entries = ((abstractLog items).take k).drop n

section Batch
variable {items : List LogEntry} {logs : LogVector} {n k : ℕ}

theorem appendParams_batch (r : Replica) (saved junk : Int) {nextIndex : Int}
    (pos : 0 ≤ nextIndex) (le : nextIndex ≤ r.state.logs.size) :
    Batch r.state.logs.items nextIndex.toNat r.state.logs.items.length
      (r.appendParams saved nextIndex junk) := by
  have enc := r.appendParams_encodes saved nextIndex junk
  obtain ⟨n, rfl⟩ := Int.eq_ofNat_of_zero_le pos
  refine ⟨Int.ofNat_le.mp le, le_rfl, rfl, fun later e he => ?_, ?_⟩
  · refine enc.prevLogTerm (by omega) ⟨e.term, e.op.command⟩ ?_
    rw [abstractLog_getElem?, show ((n : Int) - 1).toNat = n - 1 by omega]
    exact Option.mem_map_of_mem _ he
  · rw [enc.entries, if_neg (by omega), ← abstractLog_length, List.take_length]

namespace Batch
variable (batch : Batch items n k args)
include batch

theorem length : ((abstractLog items).take k).length = k := by
  rw [List.length_take, abstractLog_length, Nat.min_eq_left batch.last]

theorem entries_length : args.entries.length = k - n := by
  rw [← abstractEntries_length, batch.entries, List.length_drop, batch.length]

theorem encodes : Encodes ((abstractLog items).take k) n args := by
  refine ⟨batch.prevLogIndex, ?_, fun pos e he => ?_⟩
  · rw [batch.entries, if_neg (by omega), Int.toNat_natCast]
  · have inside : n - 1 < k := by have := batch.first; omega
    rw [show ((n : Int) - 1).toNat = n - 1 by omega, List.getElem?_take_of_lt inside,
      abstractLog_getElem?] at he
    obtain ⟨x, hx, rfl⟩ := Option.mem_map.mp he
    exact batch.prevLogTerm (by omega) x hx

/-- The check of the previous entry. -/
theorem prevMatches_iff : prevMatches logs args ↔ n = 0 ∨
    ∃ e e', logs.items[n - 1]? = some e ∧ items[n - 1]? = some e' ∧ e.term = e'.term := by
  have index := batch.prevLogIndex
  rcases Nat.eq_zero_or_pos n with rfl | pos
  · exact iff_of_true (Or.inl (by omega)) (Or.inl rfl)
  have inside : n - 1 < items.length := by have := batch.first; have := batch.last; omega
  have theirs := List.getElem?_eq_getElem inside
  have prevLogTerm := batch.prevLogTerm pos _ theirs
  have at_ : logs.at? args.prevLogIndex = logs.items[n - 1]? := by
    rw [LogVector.at?, if_pos (by omega), show args.prevLogIndex.toNat = n - 1 by omega]
  unfold prevMatches
  rw [at_, or_iff_right (by omega), or_iff_right (by omega), Option.map_eq_some_iff]
  constructor
  · rintro ⟨_, e, he, same⟩
    exact ⟨e, _, he, theirs, same.trans prevLogTerm⟩
  · rintro ⟨e, e', he, he', same⟩
    obtain rfl := Option.some.inj (he'.symm.trans theirs)
    refine ⟨?_, e, he, same.trans prevLogTerm.symm⟩
    have := (List.getElem?_eq_some_iff.mp he).1
    unfold LogVector.size
    omega

/-- Where the merge loop starts and stops. -/
theorem stops (prev : prevMatches logs args) :
    n ≤ logs.items.length ∧
    logInsertIndex logs args = n + newEntriesIndex logs args ∧
    newEntriesIndex logs args = LeaderLog.agreeing ((abstractLog logs.items).drop n)
      (((abstractLog items).take k).drop n) := by
  have start : (args.prevLogIndex + 1).toNat = n := by have := batch.prevLogIndex; omega
  obtain ⟨_, _, inside⟩ := logInsertIndex_le prev
  refine ⟨?_, ?_, ?_⟩
  · unfold logInsertIndex at inside
    omega
  · rw [logInsertIndex, start]
  · rw [newEntriesIndex, start, matchingEntries_agreeing, abstractLog_drop, batch.entries]

variable (alike : Alike (abstractLog logs.items) (abstractLog items))
  (prev : prevMatches logs args)
include alike prev

theorem merged : Merged (abstractLog logs.items) (abstractLog (mergedItems logs args))
    ((abstractLog items).take k) := by
  refine mergedItems_merged (alike.shorter (List.take_prefix _ _)) batch.encodes ?_ prev
  rw [batch.length]
  exact Int.ofNat_le.mpr batch.first

/-- Something is removed, or everything that is sent is there. -/
theorem behind_iff : newEntriesIndex logs args < args.entries.length ↔
    ¬ (abstractLog items).take k <+: abstractLog logs.items := by
  constructor
  · intro behind
    rw [(batch.stops prev).2.2, ← abstractEntries_length, batch.entries] at behind
    exact LeaderLog.not_prefix_of_agreeing behind
  · intro lacks
    by_contra done
    have merged := batch.merged alike prev
    rw [mergedItems, if_neg done] at merged
    exact lacks merged.message_whole

/-- What is kept ends where the log ends, or before an entry of another term than the
sender's. -/
theorem replaced (lacks : ¬ (abstractLog items).take k <+: abstractLog logs.items) :
    ∃ i < k, removed logs args = logs.items.drop i ∧
      (mergedItems logs args).take i = logs.items.take i ∧
      (i = logs.items.length ∨ ∃ e e', logs.items[i]? = some e ∧ items[i]? = some e' ∧
        e.term ≠ e'.term) := by
  have behind := (batch.behind_iff alike prev).mpr lacks
  obtain ⟨inside, insert, agreeing⟩ := batch.stops prev
  have le := (logInsertIndex_le prev).2.2
  have count := batch.entries_length
  have last := batch.last
  refine ⟨logInsertIndex logs args, by omega, if_pos behind, ?_, ?_⟩
  · rw [mergedItems, if_pos behind, List.take_append_of_le_length (by rw [List.length_take]; omega),
      List.take_take, Nat.min_self]
  · rcases LeaderLog.agreeing_ends ((abstractLog logs.items).drop n)
      (((abstractLog items).take k).drop n) with ended | ended | ⟨e, e', mine, theirs, differ⟩
    · rw [← agreeing, List.length_drop, abstractLog_length] at ended
      exact Or.inl (by omega)
    · rw [← agreeing, List.length_drop, batch.length] at ended
      omega
    · rw [← agreeing, List.getElem?_drop, ← insert] at mine theirs
      rw [List.getElem?_take_of_lt (by omega)] at theirs
      rw [abstractLog_getElem?, Option.map_eq_some_iff] at mine theirs
      obtain ⟨x, hx, rfl⟩ := mine
      obtain ⟨x', hx', rfl⟩ := theirs
      exact Or.inr ⟨x, x', hx, hx', differ⟩

end Batch

/-- `AppendEntries` with any batch of a log in which entries of one term have the same
past as in the replica's. -/
theorem appendEntries_overlap (alive : r.state.role ≠ .dead)
    (term : args.term = r.state.currentTerm) (batch : Batch items n k args)
    (client : ∀ e ∈ args.entries, e.op.command.isClient = true)
    (alike : Alike (abstractLog r.state.logs.items) (abstractLog items)) (now : Int) :
    ∃ x ret, r.appendEntries args now = (x, .replied ret) ∧
      (ret.success = true ↔ n = 0 ∨ ∃ e e', r.state.logs.items[n - 1]? = some e ∧
        items[n - 1]? = some e' ∧ e.term = e'.term) ∧
      (ret.success = true →
        (abstractLog x.state.logs.items).take k = (abstractLog items).take k ∧
        ((abstractLog items).take k <+: abstractLog r.state.logs.items →
          x.state.logs.items = r.state.logs.items ∧ x.promises = r.promises) ∧
        (¬ (abstractLog items).take k <+: abstractLog r.state.logs.items →
          abstractLog x.state.logs.items = (abstractLog items).take k ∧
          ∃ i < k, x.state.logs.items.take i = r.state.logs.items.take i ∧
            (i = r.state.logs.items.length ∨ ∃ e e', r.state.logs.items[i]? = some e ∧
              items[i]? = some e' ∧ e.term ≠ e'.term) ∧
            x.promises =
              (r.state.logs.items.drop i).foldl (fun ps e => e.op.abort ps) r.promises)) ∧
      (ret.success = false → x.state.logs = r.state.logs ∧ x.promises = r.promises) := by
  obtain ⟨ret, eq, success⟩ := r.appendEntries_held client now
  have accepts_iff : r.Accepts args ↔ prevMatches r.state.logs args :=
    ⟨fun accepts => accepts.2.2, fun prev => ⟨alive, term.ge, prev⟩⟩
  refine ⟨r.appendEntriesHeld args now, ret, eq,
    success.trans (accepts_iff.trans batch.prevMatches_iff), fun ok => ?_, fun failed => ?_⟩
  · have accepts := success.mp ok
    have prev := accepts.2.2
    obtain ⟨y, wrote, eq⟩ := accepts.writes now
    have promises : (y.followCommit args.leaderCommit).promises = y.promises := by
      obtain ⟨_, _, _, _, same⟩ := y.followCommit_eq args.leaderCommit
      rw [same]
    rw [eq, followCommit_logs, promises, wrote.items, wrote.promises]
    have merged := batch.merged alike prev
    refine ⟨?_, fun whole => ?_, fun lacks => ?_⟩
    · obtain ⟨rest, whole⟩ := merged.message_whole
      rw [← whole]
      exact List.take_left' batch.length
    · have done := fun h => (batch.behind_iff alike prev).mp h whole
      rw [mergedItems, if_neg done, removed, if_neg done]
      exact ⟨rfl, rfl⟩
    · obtain ⟨i, lt, gone, kept, ends⟩ := batch.replaced alike prev lacks
      rcases merged with ⟨whole, _⟩ | ⟨_, replaced⟩
      · exact absurd whole lacks
      · exact ⟨replaced, i, lt, kept, ends, by rw [gone]⟩
  · have no : ¬ r.Accepts args := fun accepts => by
      rw [success.mpr accepts] at failed
      cases failed
    obtain ⟨s, wrote, logs, eq⟩ := refused_writes no now
    rw [eq]
    exact ⟨logs, wrote.promises⟩

end Batch

/-! The requests of one leader. -/

/-- A leader whose follower has an entry of an earlier term. -/
def ahead : Replica where
  id := 1
  state := {
    currentTerm := 2
    role := .leader
    logs := { items := [⟨1, ⟨.put 1 1, none⟩⟩, ⟨2, ⟨.put 2 2, none⟩⟩] }
    commitIndex := 1
    nextIndex := ∅ }

def behind : Replica where
  id := 2
  state := {
    currentTerm := 2
    logs := { items := [⟨1, ⟨.put 1 1, none⟩⟩, ⟨1, ⟨.put 3 3, none⟩⟩] } }

theorem appendEntries_overlap_behind : ∃ x ret,
    behind.appendEntries (ahead.appendParams 2 1 0) 0 = (x, .replied ret) ∧
      ret.success = true ∧ abstractLog x.state.logs.items = abstractLog ahead.state.logs.items := by
  have batch := @appendParams_batch ahead 2 0 1 (by decide) (by decide)
  obtain ⟨x, ret, eq, accepted, merged, _⟩ := appendEntries_overlap (r := behind) (by decide)
    (by decide) batch (by decide) (by decide) 0
  have ok : ret.success = true := accepted.mpr (Or.inr ⟨_, _, rfl, rfl, rfl⟩)
  exact ⟨x, ret, eq, ok, ((merged ok).2.2 (by decide)).1⟩

section Leader
variable {l l' f : Replica} {T nextIndex junk : Int}

/-- What is in the log already changes nothing. -/
theorem mergedItems_covered
    (covers : abstractLog l.state.logs.items <+: abstractLog x.state.logs.items)
    (prev : prevMatches x.state.logs (l.appendParams T nextIndex junk)) :
    mergedItems x.state.logs (l.appendParams T nextIndex junk) = x.state.logs.items := by
  have enc := l.appendParams_encodes T nextIndex junk
  by_cases inside : nextIndex ≤ l.state.logs.size
  · have pos : 0 ≤ nextIndex := by
      have := (logInsertIndex_le prev).1
      have := enc.prevLogIndex
      omega
    have batch := l.appendParams_batch T junk pos inside
    rw [mergedItems, if_neg]
    intro lacks
    refine (batch.behind_iff (.whole covers) prev).mp lacks ?_
    rwa [← abstractLog_length, List.take_length]
  · refine mergedItems_nil _ (enc.beyond ?_)
    rw [abstractLog_length]
    exact not_le.mp inside

/-- Once it is accepted, the log has all that the sender has. -/
theorem Accepts.covers (accepts : r.Accepts (l.appendParams T nextIndex junk))
    (inside : nextIndex ≤ l.state.logs.size)
    (alike : Alike (abstractLog r.state.logs.items) (abstractLog l.state.logs.items)) :
    0 ≤ nextIndex ∧ abstractLog l.state.logs.items <+:
      abstractLog (mergedItems r.state.logs (l.appendParams T nextIndex junk)) := by
  have pos : 0 ≤ nextIndex := by
    have := (logInsertIndex_le accepts.2.2).1
    have := (l.appendParams_encodes T nextIndex junk).prevLogIndex
    omega
  have whole := ((l.appendParams_batch T junk pos inside).merged alike accepts.2.2).message_whole
  rw [← abstractLog_length, List.take_length] at whole
  exact ⟨pos, whole⟩

/-- Requests are handled one after the other, each at its time. -/
def handle (r : Replica) (ms : List (AppendEntriesParams × Int)) : Replica :=
  ms.foldl (fun r m => (r.appendEntries m.1 m.2).1) r

/-- What a request of a leader whose log is covered does. -/
theorem appendEntriesHeld_covered
    (covers : abstractLog l.state.logs.items <+: abstractLog x.state.logs.items)
    (T nextIndex junk now : Int) : ∃ y,
      y.state.logs.items = x.state.logs.items ∧ y.state.commitIndex = x.state.commitIndex ∧
      (x.appendEntriesHeld (l.appendParams T nextIndex junk) now = y ∨
        x.appendEntriesHeld (l.appendParams T nextIndex junk) now =
          y.followCommit l.state.commitIndex) := by
  by_cases accepts : x.Accepts (l.appendParams T nextIndex junk)
  · obtain ⟨y, wrote, eq⟩ := accepts.writes now
    exact ⟨y, wrote.items.trans (mergedItems_covered covers accepts.2.2), wrote.commitIndex,
      Or.inr eq⟩
  · obtain ⟨s, wrote, _, eq⟩ := refused_writes accepts now
    exact ⟨_, wrote.items, wrote.commitIndex, Or.inl eq⟩

/-- The commit rule has been followed: `CommitIndex` is the sender's, or inside the log. -/
def Followed (leaderCommit : Int) (x : Replica) : Prop :=
  leaderCommit ≤ x.state.commitIndex ∨ x.state.commitIndex < x.state.logs.size

theorem followed_followCommit (y : Replica) (leaderCommit : Int) :
    (y.followCommit leaderCommit).Followed leaderCommit := by
  unfold Followed
  rw [followCommit_logs, followCommit_commitIndex]
  split <;> omega

theorem Followed.followCommit {leaderCommit c : Int} (h : y.Followed leaderCommit)
    (le : c ≤ leaderCommit) : (y.followCommit c).Followed leaderCommit ∧
      y.state.commitIndex ≤ (y.followCommit c).state.commitIndex := by
  unfold Followed at h ⊢
  rw [followCommit_logs, followCommit_commitIndex]
  split <;> omega

/-- Late requests of a leader whose later log is covered leave the log as it is. -/
theorem handle_covered
    (earlier : abstractLog l.state.logs.items <+: abstractLog l'.state.logs.items)
    (committed : l.state.commitIndex ≤ l'.state.commitIndex)
    {args' : AppendEntriesParams} {junk' nextIndex' : Int}
    (args_eq : args = l.appendParams T nextIndex junk)
    (args'_eq : args' = l'.appendParams T nextIndex' junk')
    (client : ∀ e ∈ args.entries, e.op.command.isClient = true)
    (client' : ∀ e ∈ args'.entries, e.op.command.isClient = true)
    {ms : List (AppendEntriesParams × Int)} (late : ∀ m ∈ ms, m.1 = args ∨ m.1 = args')
    (covers : abstractLog l'.state.logs.items <+: abstractLog x.state.logs.items)
    (followed : x.Followed l'.state.commitIndex) :
    (x.handle ms).state.logs.items = x.state.logs.items ∧
      x.state.commitIndex ≤ (x.handle ms).state.commitIndex := by
  induction ms generalizing x with
  | nil => exact ⟨rfl, le_rfl⟩
  | cons m ms ih =>
      -- whichever of the two it is, the log stays and the commit rule has nothing to lower
      have next : ∃ z, (x.appendEntries m.1 m.2).1 = z ∧ z.state.logs.items = x.state.logs.items ∧
          z.Followed l'.state.commitIndex ∧ x.state.commitIndex ≤ z.state.commitIndex := by
        have handled {k : Replica} {n j : Int}
            (cov : abstractLog k.state.logs.items <+: abstractLog x.state.logs.items)
            (le : k.state.commitIndex ≤ l'.state.commitIndex)
            (client : ∀ e ∈ (k.appendParams T n j).entries, e.op.command.isClient = true) :
            ∃ z, (x.appendEntries (k.appendParams T n j) m.2).1 = z ∧
              z.state.logs.items = x.state.logs.items ∧ z.Followed l'.state.commitIndex ∧
              x.state.commitIndex ≤ z.state.commitIndex := by
          obtain ⟨_, eq, _⟩ := x.appendEntries_held client m.2
          obtain ⟨y, items, same, held | held⟩ := appendEntriesHeld_covered cov T n j m.2 <;>
            rw [eq, held]
          all_goals
            have followed' : y.Followed l'.state.commitIndex := by
              unfold Followed LogVector.size at followed ⊢
              rwa [items, same]
          · exact ⟨y, rfl, items, followed', same.ge⟩
          · obtain ⟨kept, up⟩ := followed'.followCommit le
            exact ⟨_, rfl, by rw [followCommit_logs, items], kept, same ▸ up⟩
        rcases late m List.mem_cons_self with eq | eq
        · rw [eq, args_eq]
          exact handled (earlier.trans covers) committed (args_eq ▸ client)
        · rw [eq, args'_eq]
          exact handled covers le_rfl (args'_eq ▸ client')
      obtain ⟨z, eq, items, kept, up⟩ := next
      have rest := ih (fun m h => late m (List.mem_cons_of_mem _ h)) (items ▸ covers) kept
      change ((x.appendEntries m.1 m.2).1.handle ms).state.logs.items = _ ∧
        _ ≤ ((x.appendEntries m.1 m.2).1.handle ms).state.commitIndex
      rw [eq]
      exact ⟨rest.1.trans items, up.trans rest.2⟩

theorem leaderHeld_writes (ops : List RaftOp) (r : Replica) : ∃ es,
    r.Writes (r.state.logs.items ++ es) r.promises (leaderHeld ops r) := by
  induction ops generalizing r with
  | nil =>
      refine ⟨[], ?_⟩
      rw [List.append_nil]
      exact r.writes_persistLogs
  | cons op ops ih =>
      have first := r.writes_append ⟨r.state.currentTerm, op⟩
      have rest {z : Replica}
          (w : r.Writes (r.state.logs.items ++ [⟨r.state.currentTerm, op⟩]) r.promises z) :
          ∃ es, r.Writes (r.state.logs.items ++ es) r.promises (leaderHeld ops z) := by
        obtain ⟨es, later⟩ := ih z
        rw [w.items, w.promises, List.append_assoc] at later
        exact ⟨_, w.trans later⟩
      rw [leaderHeld, applyConfig_pushLog r ⟨r.state.currentTerm, op⟩]
      cases op.command.peerUpdate r.id with
      | some u =>
          have updated := first.trans (writes_updatePeers _ u)
          rw [first.items, first.promises] at updated
          exact rest updated
      | none => exact rest first

/-- While a replica leads, its log and `CommitIndex` grow. -/
theorem run_grows (h : Handler) (leads : r.state.role = .leader)
    (still : (r.run h).state.role = .leader) : r.state.logs.items <+: (r.run h).state.logs.items ∧
      r.state.commitIndex ≤ (r.run h).state.commitIndex := by
  have same {x : Replica} (items : x.state.logs.items = r.state.logs.items)
      (commitIndex : x.state.commitIndex = r.state.commitIndex) :
      r.state.logs.items <+: x.state.logs.items ∧ r.state.commitIndex ≤ x.state.commitIndex :=
    ⟨items ▸ List.prefix_refl _, commitIndex.ge⟩
  cases h with
  | electionTick now timeout =>
      have idle : r.electionTick now timeout = r :=
        if_neg fun due => by rw [leads] at due; cases due.1
      rw [run, idle]
      exact same rfl rfl
  | requestVote args now =>
      obtain ⟨_, _, _, _, _, eq⟩ := r.requestVote_eq args now
      rw [run, eq]
      exact same rfl rfl
  | voteReply saved reply now =>
      have idle : r.voteReply saved reply now = r := if_pos (by rw [leads]; decide)
      rw [run, idle]
      exact same rfl rfl
  | appendEntries args now =>
      by_cases accepts : r.Accepts args
      · -- a leader that accepts a request is none any more
        have core := r.core_appendEntriesHeld args now
        have role : (r.core.appendEntries args now).role = .leader := by
          rw [← core]
          exact still
        have met : (r.core.meetLeader args now).role = .follower := by
          rw [← r.core_observeLeader accepts.1]
          refine observeLeader_role ?_
          rw [observeLeader_term, max_eq_right accepts.2.1]
        unfold Core.appendEntries at role
        split at role
        · have other : (r.core.meetLeader args now).role = .leader := role
          rw [met] at other
          cases other
        · rw [met] at role
          cases role
      · obtain ⟨s, wrote, _, eq⟩ := refused_writes accepts now
        rw [run, eq]
        exact same wrote.items wrote.commitIndex
  | runLeaderOneIter ops =>
      obtain ⟨es, wrote⟩ := leaderHeld_writes ops r
      exact ⟨wrote.items ▸ List.prefix_append _ _, wrote.commitIndex.ge⟩
  | appendReply id saved nextIndex n reply now =>
      rw [run]
      clear still
      refine appendReply_elim r id saved nextIndex n reply now ?down ?idle ?refused ?matched
        ?committed
      case down => exact fun _ => same rfl rfl
      case idle => exact fun _ _ => same rfl rfl
      case refused => exact fun _ _ _ => same rfl rfl
      case matched => exact fun _ _ _ _ _ => same rfl rfl
      case committed =>
        rintro _ _ _ m i _ later _ s rfl
        exact ⟨List.prefix_refl _, later.le⟩
  | addServer args =>
      rw [run]
      unfold addServer
      split
      · exact same rfl rfl
      split <;> exact same rfl rfl
  | removeServer serverId =>
      rw [run]
      unfold removeServer
      split
      · exact same rfl rfl
      split <;> exact same rfl rfl
  | leaderAddr => exact same rfl rfl
  | stepDown now => exact absurd still (by simp [run, RaftState.becomeFollower, RaftState.persist])

/-- Requests of one leader in one term that come late, or again, undo nothing. A leader's
`CommitIndex` does not fall between the two. -/
theorem handle_late {nextIndex' junk' now : Int} {ret : AppendEntriesRet}
    (earlier : abstractLog l.state.logs.items <+: abstractLog l'.state.logs.items)
    (committed : l.state.commitIndex ≤ l'.state.commitIndex)
    (inside : nextIndex' ≤ l'.state.logs.size)
    (client : ∀ e ∈ (l.appendParams T nextIndex junk).entries, e.op.command.isClient = true)
    (client' : ∀ e ∈ (l'.appendParams T nextIndex' junk').entries, e.op.command.isClient = true)
    (alike : Alike (abstractLog f.state.logs.items) (abstractLog l'.state.logs.items))
    (replied : (f.appendEntries (l'.appendParams T nextIndex' junk') now).2 = .replied ret)
    (ok : ret.success = true) {ms : List (AppendEntriesParams × Int)}
    (late : ∀ m ∈ ms, m.1 = l.appendParams T nextIndex junk ∨
      m.1 = l'.appendParams T nextIndex' junk') :
    (abstractLog ((f.appendEntries (l'.appendParams T nextIndex' junk') now).1.handle
        ms).state.logs.items).take l'.state.logs.items.length = abstractLog l'.state.logs.items ∧
      (f.appendEntries (l'.appendParams T nextIndex' junk') now).1.state.commitIndex ≤
        ((f.appendEntries (l'.appendParams T nextIndex' junk') now).1.handle ms).state.commitIndex
    := by
  obtain ⟨ret', eq, success⟩ := f.appendEntries_held client' now
  rw [eq] at replied ⊢
  obtain rfl := AppendOutcome.replied.inj replied
  have accepts := success.mp ok
  obtain ⟨_, covers⟩ := accepts.covers inside alike
  obtain ⟨y, wrote, held⟩ := accepts.writes now
  have items : (f.appendEntriesHeld (l'.appendParams T nextIndex' junk') now).state.logs.items =
      mergedItems f.state.logs (l'.appendParams T nextIndex' junk') := by
    rw [held, followCommit_logs, wrote.items]
  rw [← items] at covers
  have followed : (f.appendEntriesHeld (l'.appendParams T nextIndex' junk') now).Followed
      l'.state.commitIndex := held ▸ y.followed_followCommit _
  obtain ⟨kept, up⟩ := handle_covered earlier committed rfl rfl client client' late covers followed
  refine ⟨?_, up⟩
  obtain ⟨rest, whole⟩ := covers
  change (abstractLog ((f.appendEntriesHeld _ now).handle ms).state.logs.items).take _ = _
  rw [kept, ← whole]
  exact List.take_left' (abstractLog_length _)

/-- The leader before it has appended its last entry. -/
def aheadByOne : Replica :=
  { ahead with state := { ahead.state with
      logs := { items := [⟨1, ⟨.put 1 1, none⟩⟩] }
      commitIndex := 0 } }

/-- A request with the first entry comes after the one with both. -/
theorem handle_late_behind :
    let x := (behind.appendEntries (ahead.appendParams 2 0 0) 0).1
    let late := [(aheadByOne.appendParams 2 0 0, 5), (ahead.appendParams 2 0 0, 6)]
    (abstractLog (x.handle late).state.logs.items).take 2 = abstractLog ahead.state.logs.items ∧
      x.state.commitIndex ≤ (x.handle late).state.commitIndex :=
  @handle_late aheadByOne ahead behind 2 0 0 0 0 0 ⟨2, true⟩ (by decide) (by decide) (by decide)
    (by decide) (by decide) (by decide) rfl rfl _ (by decide)

/-- What a follower commits is what the request has verified: `leaderCommit` and the entries are
read from one log. -/
theorem appendEntriesHeld_commits {p : Int} (inside : l.state.commitIndex < l.state.logs.size)
    (pos : 0 ≤ (l.state.nextIndex.subscript p 0).1)
    (le : (l.state.nextIndex.subscript p 0).1 ≤ l.state.logs.size)
    (alike : Alike (abstractLog f.state.logs.items) (abstractLog l.state.logs.items))
    (T junk now : Int) :
    let args := l.appendParams T (l.state.nextIndex.subscript p 0).1 junk
    let x := f.appendEntriesHeld args now
    let pushed := newlyCommitted { x.state with lastApplied := f.state.lastApplied }
    (x.state.commitIndex = f.state.commitIndex ∧ x.raftOut = f.raftOut) ∨
    (x.state.commitIndex ≤ args.prevLogIndex + args.entries.length ∧
      x.raftOut = f.raftOut ++ pushed.map (·.2) ∧
      ∀ q ∈ pushed, ∃ e, l.state.logs.at? q.1 = some e ∧ q.2.command = e.op.command) := by
  intro args x pushed
  have batch : Batch l.state.logs.items _ _ args := l.appendParams_batch T junk pos le
  have reach : args.prevLogIndex + args.entries.length = l.state.logs.size - 1 := by
    have := batch.entries_length
    have := batch.prevLogIndex
    have := batch.first
    unfold LogVector.size
    omega
  rw [reach]
  by_cases accepts : f.Accepts args
  · obtain ⟨y, wrote, eq⟩ := accepts.writes now
    obtain ⟨_, covers⟩ := accepts.covers le alike
    rw [← wrote.items] at covers
    have held : x = y.followCommit l.state.commitIndex := eq
    by_cases later : l.state.commitIndex > y.state.commitIndex
    · have capped : x.state.commitIndex = min l.state.commitIndex (y.state.logs.size - 1) := by
        rw [held, followCommit_commitIndex, if_pos later]
      have logs : x.state.logs = y.state.logs := by rw [held, followCommit_logs]
      have out : x.raftOut = f.raftOut ++ pushed.map (·.2) := by
        have whole : pushed = newlyCommitted { y.state with
            commitIndex := min l.state.commitIndex (y.state.logs.size - 1) } := by
          simp only [pushed, newlyCommitted, capped, logs, wrote.lastApplied]
        rw [held, followCommit, if_pos later, whole, ← wrote.raftOut]
        rfl
      refine Or.inr ⟨by omega, out, fun q hq => ?_⟩
      obtain ⟨low, high, e, he, same⟩ := mem_newlyCommitted hq
      have reached : q.1 ≤ l.state.commitIndex :=
        high.trans (capped.le.trans (min_le_left _ _))
      have short : q.1.toNat < l.state.logs.items.length := by
        unfold LogVector.size at inside
        omega
      -- the sender's log is where the follower's log begins
      obtain ⟨rest, whole⟩ := covers
      have mine : (abstractLog y.state.logs.items)[q.1.toNat]? =
          (abstractLog l.state.logs.items)[q.1.toNat]? := by
        rw [← whole, List.getElem?_append_left (by rwa [abstractLog_length])]
      have theirs := List.getElem?_eq_getElem short
      rw [abstractLog_getElem?, abstractLog_getElem?, ← logs, show x.state.logs.items[q.1.toNat]? =
        some e from he, theirs] at mine
      refine ⟨_, (if_pos low).trans theirs, ?_⟩
      rw [← same]
      exact congrArg LeaderLog.Entry.op (Option.some.inj mine)
    · have quiet : x = y := held.trans (if_neg later)
      rw [quiet]
      exact Or.inl ⟨wrote.commitIndex, wrote.raftOut⟩
  · obtain ⟨s, wrote, _, eq⟩ := refused_writes accepts now
    rw [show x = { f with state := s } from eq]
    exact Or.inl ⟨wrote.commitIndex, wrote.raftOut⟩

theorem appendEntriesHeld_commits_behind :
    (behind.appendEntriesHeld (ahead.appendParams 2 0 0) 0).state.commitIndex ≤ 1 ∧
      (behind.appendEntriesHeld (ahead.appendParams 2 0 0) 0).raftOut =
        [⟨.put 1 1, none⟩, ⟨.put 2 2, none⟩] := by
  rcases appendEntriesHeld_commits (l := ahead) (f := behind) (p := 2) (by decide) (by decide)
    (by decide) (by decide) 2 0 0 with ⟨same, _⟩ | ⟨le, out, _⟩
  · exact absurd same (by decide)
  · exact ⟨le, out⟩

end Leader

end Replica
end OhMyDb
