import OhMyDb.Raft.Gaps
import Mathlib.Data.List.Permutation

/-!
Runs of one replica in which nothing comes between the halves of a handler that either
would notice: every entry comes to its index, and the handlers have the effect of running
one after the other. A request that is delivered twice is enough for neither to hold.
-/

namespace OhMyDb
open Execution

/-- Entries with the indices from `i` on. -/
def Numbered : Int → List AppendLogEntry → Prop
  | _, [] => True
  | i, e :: es => e.index = i ∧ Numbered (i + 1) es

theorem Numbered.drop {i : Int} {es : List AppendLogEntry} (h : Numbered i es) (n : ℕ) :
    Numbered (i + n) (es.drop n) := by
  induction n generalizing i es with
  | zero => simpa using h
  | succ n ih =>
      cases es with
      | nil => exact True.intro
      | cons e es =>
          have later := ih h.2
          rw [List.drop_succ_cons]
          have same : i + 1 + (n : Int) = i + ((n + 1 : ℕ) : Int) := by omega
          rwa [same] at later

theorem numbered_mapIdx {α : Type} (l : List α) {f : ℕ → α → AppendLogEntry} {i : Int}
    (index : ∀ j a, (f j a).index = i + j) : Numbered i (l.mapIdx f) := by
  induction l generalizing f i with
  | nil => exact True.intro
  | cons a l ih =>
      rw [List.mapIdx_cons]
      refine ⟨by simpa using index 0 a, ih fun j b => ?_⟩
      rw [index]
      omega

theorem Numbered.map {i : Int} {es : List AppendLogEntry} (h : Numbered i es)
    {f : AppendLogEntry → AppendLogEntry} (same : ∀ e, (f e).index = e.index) :
    Numbered i (es.map f) := by
  induction es generalizing i with
  | nil => exact True.intro
  | cons e es ih => exact ⟨(same e).trans h.1, ih h.2⟩

/-- A request is one that `runLeaderOneIter` makes, of any leader's log. -/
def Stimulus.FromLeader : Stimulus → Prop
  | .appendEntries _ _ args _ => ∃ (leader : Replica) (saved nextIndex junk : Int),
      args = leader.appendParams saved nextIndex junk
  | _ => True

namespace Replica
variable {r r' : Replica} {s : Stimulus}

/-- The mismatches of index that have been logged. -/
def mismatches (r : Replica) : List (Int × Int) :=
  r.hist.filterMap fun
    | .indexMismatch size index => some (size, index)
    | _ => none

theorem mismatches_note (es : List Event) (hist : r'.hist = es ++ r.hist)
    (other : ∀ e ∈ es, ∀ size index, e ≠ .indexMismatch size index) :
    r'.mismatches = r.mismatches := by
  have none : es.filterMap (fun
      | .indexMismatch size index => some (size, index)
      | _ => none) = ([] : List (Int × Int)) := by
    refine List.filterMap_eq_nil_iff.mpr fun e he => ?_
    cases e with
    | indexMismatch size index => exact absurd rfl (other _ he size index)
    | _ => rfl
  rw [mismatches, hist, List.filterMap_append, none]
  rfl

/-- A request has the indices of the log it is taken from. -/
theorem numbered_received {args : AppendEntriesParams} {leader : Replica}
    {saved nextIndex junk : Int} (from_leader : args = leader.appendParams saved nextIndex junk) :
    Numbered (args.received.prevLogIndex + 1) args.received.entries := by
  subst from_leader
  have start : (leader.appendParams saved nextIndex junk).received.prevLogIndex + 1 = nextIndex :=
    Int.sub_add_cancel nextIndex 1
  rw [start]
  refine Numbered.map ?_ fun e => rfl
  rw [appendParams, entriesFrom]
  split
  · exact True.intro
  · exact numbered_mapIdx _ fun j e => rfl

theorem mismatches_queueCommitted (r : Replica) : r.queueCommitted.mismatches = r.mismatches := by
  refine mismatches_note _ rfl fun e he => ?_
  obtain ⟨p, _, rfl⟩ := List.mem_map.mp (List.mem_reverse.mp he)
  exact fun _ _ => Event.noConfusion

@[simp] theorem mismatches_followCommit (r : Replica) (leaderCommit : Int) :
    (r.followCommit leaderCommit).mismatches = r.mismatches := by
  unfold followCommit
  split
  · exact mismatches_queueCommitted _
  · rfl

@[simp] theorem mismatches_truncate (r : Replica) (n : ℕ) :
    (r.truncate n).mismatches = r.mismatches := by
  refine mismatches_note _ rfl fun e he => ?_
  obtain ⟨_, _, h⟩ := List.mem_filterMap.mp (List.mem_reverse.mp he)
  obtain ⟨_, _, rfl⟩ := Option.map_eq_some_iff.mp h
  exact fun _ _ => Event.noConfusion

/-- The append loop pushes to the index of each entry. -/
theorem appendRest_placed (args : AppendEntriesParams) (es : List AppendLogEntry) (r : Replica)
    (numbered : Numbered r.state.logs.size es) :
    (r.appendRest args es).1.mismatches = r.mismatches ∧
      ∀ u e rest, (r.appendRest args es).2 = .suspended u e rest →
        (r.appendRest args es).1.state.logs.size - 1 = e.index ∧
        (r.appendRest args es).1.state.logs.at? e.index = some e.entry ∧
        Numbered (e.index + 1) rest := by
  induction es generalizing r with
  | nil =>
      rw [appendRest_nil]
      refine ⟨mismatches_followCommit _ _, ?_⟩
      rintro u e rest ⟨⟩
  | cons e es ih =>
      have size : (r.append ⟨e.term, e.op⟩).state.logs.size = r.state.logs.size + 1 := by
        simp [append, LogVector.size]
      have index : (r.append ⟨e.term, e.op⟩).state.logs.size - 1 = e.index := by
        rw [size, numbered.1]
        omega
      rw [appendRest_cons]
      cases h : e.op.command.peerUpdate r.id with
      | some u =>
          refine ⟨rfl, ?_⟩
          rintro _ _ _ ⟨⟩
          refine ⟨index, ?_, numbered.1 ▸ numbered.2⟩
          rw [numbered.1]
          simp [LogVector.at?, LogVector.size, append, AppendLogEntry.entry]
      | none =>
          have matches_ : (r.append ⟨e.term, e.op⟩).checkIndex e = r.append ⟨e.term, e.op⟩ :=
            if_neg (not_not_intro index)
          simp only [matches_]
          exact ih (r.append ⟨e.term, e.op⟩) (by rw [size]; exact numbered.2)

/-- Where a call of `AppendEntries` stands: at its last entry, with nobody else at the log. -/
structure Placed (r : Replica) : Prop where
  indices : r.mismatches = []
  one : r.handlers.length ≤ 1
  alone : r.handlers.length ≠ 0 → r.raftThread.rest = []
  here : ∀ h ∈ r.handlers, r.state.logs.size - 1 = h.current.index
  last : ∀ h ∈ r.handlers, r.state.logs.at? h.current.index = some h.current.entry
  numbered : ∀ h ∈ r.handlers, Numbered (h.current.index + 1) h.rest

theorem Placed.keep (placed : r.Placed) (logs : r'.core.logs = r.core.logs)
    (handlers : r'.handlers = r.handlers)
    (rest : r'.raftThread.rest = r.raftThread.rest ∨ r'.raftThread.rest = [])
    (mismatches : r'.mismatches = r.mismatches) : r'.Placed where
  indices := mismatches.trans placed.indices
  one := by rw [handlers]; exact placed.one
  alone some := by
    rw [handlers] at some
    rcases rest with same | nil
    · exact same.trans (placed.alone some)
    · exact nil
  here h hh := by
    rw [handlers] at hh
    have size : r'.state.logs.size = r.state.logs.size := congrArg (fun l => (l.length : Int)) logs
    rw [size]
    exact placed.here h hh
  last h hh := by
    have vector : r'.core.logVector = r.core.logVector := by rw [Core.logVector, logs]; rfl
    exact (congrArg (·.at? h.current.index) vector).trans (placed.last h (handlers ▸ hh))
  numbered := by rw [handlers]; exact placed.numbered

theorem Placed.nobody (indices : r.mismatches = []) (none : r.handlers = []) : r.Placed where
  indices := indices
  one := by simp [none]
  alone some := absurd (by simp [none]) some
  here := by simp [none]
  last := by simp [none]
  numbered := by simp [none]

/-- A call has come to its end, or to a gap. -/
theorem Placed.settle {owner : Int} {k : ℕ} {args : AppendEntriesParams} {es : List AppendLogEntry}
    (indices : r.mismatches = []) (none : r.handlers = []) (rest : r.raftThread.rest = [])
    (numbered : Numbered r.state.logs.size es) :
    ((r.appendRest args es).1.settle owner k args (r.appendRest args es).2).Placed := by
  obtain ⟨same, stops⟩ := appendRest_placed args es r numbered
  have quiet := quiet_appendRest r args es
  cases h : (r.appendRest args es).2 with
  | replied ret => exact .nobody (same.trans indices) (quiet.handlers.trans none)
  | suspended u e more =>
      obtain ⟨here, last, numbered'⟩ := stops u e more h
      have only : ((r.appendRest args es).1.settle owner k args (.suspended u e more)).handlers =
          [⟨owner, k, args, some u, e, more⟩] := by
        rw [Replica.settle, quiet.handlers, none]
        rfl
      refine ⟨same.trans indices, by simp [only], fun _ => ?_, ?_, ?_, ?_⟩
      · exact (congrArg RaftThread.rest quiet.raftThread).trans rest
      all_goals
        rw [only]
        rintro x hx
        obtain rfl := List.mem_singleton.mp hx
      · exact here
      · exact last
      · exact numbered'

theorem run_logs {c : Core} {x : Handler} (pushes : ∀ args now, x ≠ .appendEntries args now)
    (leads : ∀ ops, x ≠ .runLeaderOneIter ops) : (c.run x).logs = c.logs := by
  cases x with
  | electionTick now timeout =>
      simp only [Core.run, Core.electionTick]
      split <;> rfl
  | requestVote args now =>
      simp only [Core.run, Core.requestVote]
      split_ifs <;> rfl
  | voteReply saved reply now =>
      simp only [Core.run, Core.voteReply]
      split_ifs <;> rfl
  | appendReply | addServer | removeServer =>
      simp only [Core.run]
      split <;> rfl
  | leaderAddr | stepDown => rfl
  | appendEntries args now => exact absurd rfl (pushes args now)
  | runLeaderOneIter ops => exact absurd rfl (leads ops)

theorem Placed.appendEntries (placed : r.Placed) {owner : Int} {k : ℕ}
    {args : AppendEntriesParams} {now : Int} (decides : r.Decides (.appendEntries args now))
    (numbered : Numbered (args.prevLogIndex + 1) args.entries) :
    ((r.appendEntries args now).1.settle owner k args (r.appendEntries args now).2).Placed := by
  by_cases merges : r.core.Merges args
  · obtain ⟨nobody, done, _⟩ := decides (Or.inl merges)
    have prev : prevMatches r.state.logs args := merges.2.2.1
    obtain ⟨_, index, inside⟩ := logInsertIndex_le prev
    rw [r.appendEntries_pushes merges]
    refine .settle ?_ (List.length_eq_zero_iff.mp nobody) done ?_
    · exact (mismatches_truncate _ _).trans placed.indices
    · have size : ({ r with state := r.observeLeader args now }.truncate
          (logInsertIndex r.state.logs args)).state.logs.size =
          args.prevLogIndex + 1 + newEntriesIndex r.state.logs args := by
        rw [← index]
        simp [truncate, LogVector.size, min_eq_left inside]
      rw [size]
      exact numbered.drop _
  · obtain ⟨s, c, ret, eq, met⟩ := r.appendEntries_still merges now
    rw [eq]
    have quiet := quiet_followCommit { r with state := s } c
    refine .keep placed ?_ quiet.handlers (Or.inl (congrArg _ quiet.raftThread))
      (mismatches_followCommit _ _)
    rw [settle_core, core_followCommit, met]
    exact r.core.meetLeader_logs args now

theorem Placed.appendResume {j : ℕ} (placed : r.Placed) (h : r.appendResume j = some r') :
    r'.Placed := by
  unfold Replica.appendResume at h
  split at h
  · cases h
  next x hx =>
  have mem := List.mem_of_getElem? hx
  have busy : r.handlers.length ≠ 0 := fun nil =>
    List.ne_nil_of_mem mem (List.length_eq_zero_iff.mp nil)
  split at h
  · next u hu =>
    cases h
    have same : (r.updatePeers u).handlers = r.handlers := by cases u <;> rfl
    have thread : (r.updatePeers u).raftThread = r.raftThread := by cases u <;> rfl
    have logs : (r.updatePeers u).state.logs = r.state.logs := by cases u <;> rfl
    have noted : (r.updatePeers u).mismatches = r.mismatches := by cases u <;> rfl
    refine ⟨noted.trans placed.indices, ?_, fun _ => ?_, ?_, ?_, ?_⟩
    · rw [List.length_set, same]
      exact placed.one
    · exact (congrArg RaftThread.rest thread).trans (placed.alone busy)
    · intro y hy
      rw [logs]
      rcases List.mem_or_eq_of_mem_set hy with hy | rfl
      · exact placed.here y (same ▸ hy)
      · exact placed.here x mem
    · intro y hy
      rw [logs]
      rcases List.mem_or_eq_of_mem_set hy with hy | rfl
      · exact placed.last y (same ▸ hy)
      · exact placed.last x mem
    · intro y hy
      rcases List.mem_or_eq_of_mem_set hy with hy | rfl
      · exact placed.numbered y (same ▸ hy)
      · exact placed.numbered x mem
  · next hu =>
    cases h
    have there : ({ r with handlers := r.handlers.eraseIdx j } : Replica).checkIndex x.current =
        { r with handlers := r.handlers.eraseIdx j } :=
      if_neg (not_not_intro (placed.here x mem))
    have size : r.state.logs.size = x.current.index + 1 := by
      rw [← placed.here x mem]
      omega
    have none : r.handlers.eraseIdx j = [] := by
      have one := placed.one
      have lt := (List.getElem?_eq_some_iff.mp hx).1
      rw [← List.length_eq_zero_iff, List.length_eraseIdx_of_lt lt]
      omega
    rw [there]
    refine .settle placed.indices none (placed.alone busy) ?_
    rw [size]
    exact placed.numbered x mem

theorem mismatches_leaderAppend (ops : List RaftOp) (r : Replica) (saved : Int) :
    (r.leaderAppend saved ops).mismatches = r.mismatches := by
  induction ops generalizing r with
  | nil => rfl
  | cons op ops ih =>
      rw [leaderAppend_cons]
      cases op.command.peerUpdate r.id with
      | some u => rfl
      | none => exact ih _

theorem Placed.raftImpl (placed : r.Placed) (und : r.Undisturbed .raftImpl) :
    r.raftImpl.Placed := by
  have keeps {saved : Int} {ops : List RaftOp}
      (nobody : ops ≠ [] → r.handlers.length = 0) : (r.leaderAppend saved ops).Placed := by
    by_cases nil : ops = []
    · rw [nil]
      exact placed.keep (congrArg Core.logs r.core_persistLogs) rfl (Or.inr rfl) rfl
    · obtain ⟨_, _, _, handlers⟩ := leaderAppend_stops ops r saved
      refine .nobody ((mismatches_leaderAppend ops r saved).trans placed.indices) ?_
      exact handlers.trans (List.length_eq_zero_iff.mp (nobody nil))
  unfold Replica.raftImpl
  split
  · exact placed.keep rfl rfl (Or.inr rfl) rfl
  · refine placed.keep rfl rfl (Or.inr ?_) rfl
    split <;> rfl
  · next t =>
    have begun : r.begins .raftImpl = some (.runLeaderOneIter r.raftIn) := if_pos t
    exact keeps fun ne => ((und _ begun).1 ne).1
  · next saved u rest t =>
    have logs : (r.updatePeers u).core.logs = r.core.logs := by
      rw [core_updatePeers]
      rfl
    refine placed.keep logs ?_ (Or.inl ?_) ?_
    · cases u <;> rfl
    · rw [t]
      rfl
    · cases u <;> rfl
  · next saved rest t =>
    refine keeps fun ne => ?_
    by_contra busy
    exact ne ((congrArg RaftThread.rest t).symm.trans (placed.alone busy))
  · exact placed.keep rfl rfl (Or.inr rfl) rfl
  · exact placed.keep rfl rfl (Or.inr rfl) rfl

theorem mismatches_advance {now : Int} {call : Call} {p : Replica × Call}
    (h : r.advance now call = some p) : p.1.mismatches = r.mismatches := by
  cases call with
  | refused op it =>
      cases h
      rfl
  | removeWaitCommit serverId prev n =>
      simp only [advance] at h
      split at h
      · cases h
        split <;> rfl
      · split at h <;> cases h <;> rfl
  | waiting op it =>
      simp only [advance] at h
      split at h
      · obtain ⟨_, _, rfl⟩ := Option.map_eq_some_iff.mp h
        rfl
      · cases h
  | _ =>
      simp only [advance] at h
      repeat' split at h
      all_goals cases h
      all_goals rfl

theorem mismatches_appendReply (r : Replica) (id saved nextIndex : Int) (n : ℕ)
    (reply : AppendEntriesRet) (now : Int) :
    (r.appendReply id saved nextIndex n reply now).mismatches = r.mismatches := by
  simp only [appendReply]
  split_ifs <;> first
    | rfl
    | exact mismatches_queueCommitted _

theorem hear_placed (placed : r.Placed) (und : r.Undisturbed s) (sent : s.FromLeader)
    (h : r.hear s = some r') : r'.Placed := by
  have runs (x : Handler) (pushes : ∀ args now, x ≠ .appendEntries args now)
      (leads : ∀ ops, x ≠ .runLeaderOneIter ops) : (r.run x).core.logs = r.core.logs := by
    rw [← core_run]
    exact run_logs pushes leads
  cases s with
  | electionTick now timeout =>
      cases h
      have logs := runs (.electionTick now timeout) (by simp) (by simp)
      refine placed.keep logs ?_ (Or.inl ?_) ?_ <;> unfold electionTick <;> split <;> rfl
  | requestVote args now =>
      cases h
      have logs := runs (.requestVote args now) (by simp) (by simp)
      obtain ⟨_, _, _, _, _, eq⟩ := r.requestVote_eq args now
      refine placed.keep logs (by rw [eq]) (Or.inl (by rw [eq])) ?_
      simp only [requestVote]
      split_ifs <;> rfl
  | appendEntries owner k args now =>
      cases h
      obtain ⟨leader, saved, nextIndex, junk, from_leader⟩ := sent
      exact placed.appendEntries (und _ rfl).1 (numbered_received from_leader)
  | appendResume j => exact placed.appendResume h
  | voteReturn k reply now =>
      obtain ⟨t, ht, _, _, rfl⟩ := voteReturn_eq_some h
      have logs := runs (.voteReply t.savedCurrentTerm reply now) (by simp) (by simp)
      refine Placed.keep placed logs ?_ (Or.inl ?_) ?_ <;>
        rcases r.voteReply_cases t.savedCurrentTerm reply now with
          ⟨e, _⟩ | ⟨_, _, e⟩ | ⟨_, _, ⟨_, e⟩ | ⟨_, _, _, e⟩⟩ <;> rw [e] <;> rfl
  | raftImpl =>
      cases h
      exact placed.raftImpl und
  | appendReturn k reply now =>
      obtain ⟨t, args, ht, ha, _, _, rfl⟩ := appendReturn_eq_some h
      have logs := runs (.appendReply t.peer t.savedCurrentTerm t.nextIndex args.entries.length
        reply now) (by simp) (by simp)
      obtain ⟨_, _, _, e, _⟩ := r.appendReply_eq t.peer t.savedCurrentTerm t.nextIndex
        args.entries.length reply now
      refine placed.keep logs (by rw [e]; rfl) (Or.inl (by rw [e]; rfl)) ?_
      exact mismatches_appendReply _ _ _ _ _ _ _
  | addServer args =>
      cases h
      have logs := runs (.addServer args) (by simp) (by simp)
      have quiet := r.quiet_addServer args
      refine placed.keep logs quiet.handlers (Or.inl (congrArg _ quiet.raftThread)) ?_
      unfold addServer
      split_ifs <;> rfl
  | removeServer serverId =>
      cases h
      have logs := runs (.removeServer serverId) (by simp) (by simp)
      have quiet := r.quiet_removeServer serverId
      refine placed.keep logs quiet.handlers (Or.inl (congrArg _ quiet.raftThread)) ?_
      unfold removeServer
      split_ifs <;> rfl
  | callStep j now =>
      obtain ⟨call, p, hc, hp, rfl⟩ := callStep_eq_some h
      have noted := mismatches_advance hp
      have logs : p.1.core.logs = r.core.logs := by
        rcases advance_core hp with ⟨_, e⟩ | ⟨_, _, e⟩ | ⟨_, _, e⟩ <;> rw [e] <;> rfl
      have threads : p.1.handlers = r.handlers ∧ p.1.raftThread = r.raftThread := by
        rcases advance_cases hp with ⟨_, e⟩ | ⟨_, quiet⟩
        · rw [e]
          exact ⟨rfl, rfl⟩
        · exact ⟨quiet.handlers, quiet.raftThread⟩
      exact placed.keep logs threads.1 (Or.inl (congrArg _ threads.2)) noted
  | voteSend k =>
      obtain ⟨_, _, _, _, _, rfl⟩ := voteSend_eq_some h
      exact placed.keep rfl rfl (Or.inl rfl) rfl
  | voteFail k =>
      obtain ⟨_, _, _, rfl⟩ := voteFail_eq_some h
      exact placed.keep rfl rfl (Or.inl rfl) rfl
  | appendSend k junk =>
      obtain ⟨_, _, _, _, _, rfl⟩ := appendSend_eq_some h
      exact placed.keep rfl rfl (Or.inl rfl) rfl
  | appendFail k =>
      obtain ⟨_, _, _, rfl⟩ := appendFail_eq_some h
      exact placed.keep rfl rfl (Or.inl rfl) rfl
  | voteReply k reply | appendReply k reply =>
      cases h
      exact placed.keep rfl rfl (Or.inl rfl) rfl
  | executer ok =>
      cases h
      unfold executer
      split
      · exact placed.keep rfl rfl (Or.inl rfl) rfl
      · next op rest _ =>
        refine placed.keep rfl rfl (Or.inl rfl) (mismatches_note (op.promiseHandle.toList.map
          .tookPromise ++ [.executed op (op.run r.db ok).2]) (by simp) ?_)
        simp [or_imp, forall_and]
  | client command =>
      obtain ⟨_, e⟩ := Option.ite_none_right_eq_some.mp h
      cases e
      exact placed.keep rfl rfl (Or.inl rfl) rfl

/-- Every entry that `AppendEntries` has pushed has come to its index: none has failed the
check, and where the check is still to be made the entry is where it should be. -/
def EntriesLand (r : Replica) : Prop :=
  r.mismatches = [] ∧ ∀ h ∈ r.handlers, r.state.logs.at? h.current.index = some h.current.entry

theorem initialise_suspensions (id : Int) (config : IntMap ServerInfo) :
    (initialise id config).suspensions = [] := by
  have fresh := initialise_fresh id config
  rw [suspensions, fresh.handlers, fresh.raftThread]
  rfl

/-- While nothing is decided by one half of what a handler writes, the entries come to
their indices, and the handlers have the effect of some order of them. -/
theorem gapsHarmless {id : Int} {config : IntMap ServerInfo} {h : List (Replica × Stimulus)}
    (run : Run hear (.initialise id config) h r) (sent : Meets (fun _ => Stimulus.FromLeader) h)
    (und : Meets Undisturbed h) : r.EntriesLand ∧ (r.suspensions = [] →
      Serialisable begins Replica.run raftFields (.initialise id config) h r) := by
  have fresh := initialise_fresh id config
  have none := initialise_suspensions id config
  refine ⟨?_, fun settled => ?_⟩
  · have met : Meets (fun x s => Stimulus.FromLeader s ∧ x.Undisturbed s) h :=
      fun p hp => ⟨sent p hp, und p hp⟩
    have indices : (initialise id config).mismatches = [] := by
      rw [mismatches, fresh.hist]
      rfl
    have placed : r.Placed := run.stateInvariant met (.nobody indices fresh.handlers)
      fun x s x' placed ok hs => hear_placed placed ok.2 ok.1 hs
    exact ⟨placed.indices, placed.last⟩
  · have whole_core {x : Replica} (nil : x.suspensions = []) : x.whole = x.core := by
      rw [whole, nil, Core.complete_nil]
    have init : (initialise id config).Orderly := by
      rw [Orderly, none]
      exact .nil
    have one (x : Replica) (s : Stimulus) (x' : Replica) (orderly : x.Orderly)
        (ok : x.Undisturbed s) (hs : x.hear s = some x') :
        x'.Orderly ∧ x'.whole = (x.begins s).toList.foldl Core.run x.whole :=
      hear_serial orderly ok hs
    have seen (x y : Replica) (same : x.core = y.core) : x.raftFields = y.raftFields :=
      congrArg (fun c : Core => (c.logs, c.currentTerm, c.votedFor, c.role)) same
    exact run.serialisable und init one core_run (whole_core none) (whole_core settled) seen

/-- The log of a leader: a server is added, then a key is written. -/
def addThenPut : AppendEntriesParams :=
  appendParams { id := 2, state := { logs := { items :=
    [⟨1, ⟨.addServer ⟨4, "", 0, 0, ""⟩, none⟩⟩, ⟨1, ⟨.put 1 1, none⟩⟩] } } } 1 0 0

theorem addThenPut_fromLeader (owner : Int) (k : ℕ) (now : Int) :
    (Stimulus.appendEntries owner k addThenPut now).FromLeader := ⟨_, _, _, _, rfl⟩

/-- In the gap after the first entry the election timer is looked at, and a request for a
vote of the term is refused. -/
def quietGap : List Stimulus :=
  [.appendEntries 2 0 addThenPut 10, .electionTick 11 5, .requestVote ⟨3, 1, -1, -1⟩ 12,
    .appendResume 0, .appendResume 0]

theorem gapsHarmless_quietGap :
    (outcome hear (.initialise 1 Cluster.threeServers) quietGap).2.EntriesLand ∧
      Serialisable begins Replica.run raftFields (.initialise 1 Cluster.threeServers)
        (outcome hear (.initialise 1 Cluster.threeServers) quietGap).1
        (outcome hear (.initialise 1 Cluster.threeServers) quietGap).2 := by
  have sent : ∀ s ∈ quietGap, s.FromLeader := by
    simp only [quietGap, List.forall_mem_cons]
    exact ⟨addThenPut_fromLeader _ _ _, True.intro, True.intro, True.intro, True.intro, by simp⟩
  obtain ⟨land, serial⟩ := gapsHarmless (outcome_run _ _ _) (outcome_meets hear _ sent)
    (show Meets Undisturbed (outcome hear (.initialise 1 Cluster.threeServers) quietGap).1 by
      decide +kernel)
  exact ⟨land, serial (by decide +kernel)⟩

/-- The request is served again in the gap, as the next round of `runLeaderOneIter` sends it. -/
def servedTwice : List Stimulus :=
  [.appendEntries 2 0 addThenPut 10, .appendEntries 2 1 addThenPut 11, .appendResume 0,
    .appendResume 0]

theorem servedTwice_begun :
    begun begins (outcome hear (.initialise 1 Cluster.threeServers) servedTwice).1 =
      [.appendEntries addThenPut.received 10, .appendEntries addThenPut.received 11] := rfl

/-- The first call goes on after the other one has completed the log: it finds its entry at
another index, and the log gets the second entry twice. -/
theorem not_gapsHarmless :
    (¬ ∀ (id : Int) (config : IntMap ServerInfo) (h : List (Replica × Stimulus)) (r : Replica),
      Run hear (.initialise id config) h r → Meets (fun _ => Stimulus.FromLeader) h →
        r.EntriesLand) ∧
    ¬ ∀ (id : Int) (config : IntMap ServerInfo) (h : List (Replica × Stimulus)) (r : Replica),
      Run hear (.initialise id config) h r → Meets (fun _ => Stimulus.FromLeader) h →
        r.suspensions = [] →
          Serialisable begins Replica.run raftFields (.initialise id config) h r := by
  have run := outcome_run hear (.initialise 1 Cluster.threeServers) servedTwice
  have sent : Meets (fun _ => Stimulus.FromLeader)
      (outcome hear (.initialise 1 Cluster.threeServers) servedTwice).1 := by
    refine outcome_meets hear _ ?_
    simp only [servedTwice, List.forall_mem_cons]
    exact ⟨addThenPut_fromLeader _ _ _, addThenPut_fromLeader _ _ _,
      True.intro, True.intro, by simp⟩
  refine ⟨fun always => ?_, fun always => ?_⟩
  · have land := (always 1 Cluster.threeServers _ _ run sent).1
    exact absurd land (by decide +kernel)
  · obtain ⟨order, perm, same⟩ := always 1 Cluster.threeServers _ _ run sent (by decide +kernel)
    have three : (outcome hear (.initialise 1 Cluster.threeServers)
        servedTwice).2.raftFields.1.length = 3 := by decide +kernel
    rw [same] at three
    rw [servedTwice_begun, List.perm_pair] at perm
    rcases perm with rfl | rfl
    · exact absurd three (by decide +kernel)
    · exact absurd three (by decide +kernel)

end Replica
end OhMyDb
