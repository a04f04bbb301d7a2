import OhMyDb.Raft.Overlap
import OhMyDb.Raft.Scan

/-!
How a leader finds where a follower's log parts from its own: one request and one reply
at a time, each refusal moving `NextIndex` back by one. At index 0 a request cannot be
refused, so the exchange comes to an end with the leader's whole log at the follower.
-/

namespace OhMyDb
open LeaderLog (Alike)

namespace Replica
variable {r l f : Replica} {args : AppendEntriesParams} {now : Int}

/-- What `AppendEntries` returns, when nothing comes in where it lets go of the mutex. -/
def appendEntriesRet (r : Replica) (args : AppendEntriesParams) (now : Int) : AppendEntriesRet :=
  match r.appendEntries args now with
  | (_, .replied ret) => ret
  | (_, .suspended _ _ _) =>
      { term := (r.appendEntriesHeld args now).state.currentTerm, success := true }

/-- A sender thread builds its request, the peer serves it, and the reply comes back: both
replicas afterwards, and the reply. -/
def exchange (peer : Int) (l f : Replica) (junk now : Int) :
    Replica × Replica × AppendEntriesRet :=
  let saved := l.state.currentTerm
  let (nextIndex, m) := l.state.nextIndex.subscript peer 0
  let l := { l with state := { l.state with nextIndex := m } }
  let args := l.appendParams saved nextIndex junk
  let ret := f.appendEntriesRet args now
  (l.appendReply peer saved nextIndex args.entries.length ret now, f.appendEntriesHeld args now,
    ret)

/-- One exchange after the other. -/
def exchanges (peer : Int) (l f : Replica) (junk now : ℕ → Int) : ℕ → Replica × Replica
  | 0 => (l, f)
  | n + 1 =>
      let (l, f) := exchanges peer l f junk now n
      let (l, f, _) := exchange peer l f (junk n) (now n)
      (l, f)

/-- The reply of an exchange. -/
def exchangeRet (peer : Int) (l f : Replica) (junk now : ℕ → Int) (n : ℕ) : AppendEntriesRet :=
  let (l, f) := exchanges peer l f junk now n
  (exchange peer l f (junk n) (now n)).2.2

theorem appendEntriesHeld_standing (alive : r.state.role ≠ .dead) (args : AppendEntriesParams)
    (now : Int) : (r.appendEntriesHeld args now).state.role ≠ .dead ∧
      (r.appendEntriesHeld args now).state.currentTerm = max r.state.currentTerm args.term := by
  have met : (r.core.meetLeader args now).role ≠ .dead ∧
      (r.core.meetLeader args now).currentTerm = max r.state.currentTerm args.term := by
    have living : (r.observeLeader args now).role ≠ .dead := by
      have met : r.meetLeader args now = r.observeLeader args now := if_neg alive
      rw [← met]
      rcases meetLeader_cases alive args now with ⟨_, role, _⟩ | ⟨_, role, _⟩
      · exact role ▸ alive
      · exact role ▸ nofun
    rw [← r.core_observeLeader alive]
    exact ⟨living, r.observeLeader_term args now⟩
  have core := r.core_appendEntriesHeld args now
  unfold Core.appendEntries at core
  have role : (r.appendEntriesHeld args now).state.role = (r.core.meetLeader args now).role := by
    refine (congrArg Core.role core).trans ?_
    split <;> rfl
  have term : (r.appendEntriesHeld args now).state.currentTerm =
      (r.core.meetLeader args now).currentTerm := by
    refine (congrArg Core.currentTerm core).trans ?_
    split <;> rfl
  rw [role, term]
  exact met

theorem appendRest_replied {es : List AppendLogEntry} {ret : AppendEntriesRet}
    (h : (r.appendRest args es).2 = .replied ret) :
    ret = { term := (r.appendRest args es).1.state.currentTerm, success := true } := by
  unfold appendRest at h ⊢
  split
  · next he => rw [he] at h; cases h
  · next he =>
    rw [he] at h
    exact (AppendOutcome.replied.inj h).symm

theorem Accepts.replied {ret : AppendEntriesRet} (accepts : r.Accepts args)
    (h : (r.appendEntries args now).2 = .replied ret) :
    ret = { term := (r.appendEntries args now).1.state.currentTerm, success := true } := by
  rw [accepts.appendEntries_eq, mergeEntries] at h ⊢
  simp only [observeLeader_logs] at h ⊢
  by_cases behind : newEntriesIndex r.state.logs args < args.entries.length
  · rw [if_pos behind] at h ⊢
    exact appendRest_replied h
  · rw [if_neg behind] at h ⊢
    exact (AppendOutcome.replied.inj h).symm

/-- What the replica answers. -/
theorem appendEntriesRet_eq (alive : r.state.role ≠ .dead) (args : AppendEntriesParams)
    (now : Int) : (r.appendEntriesRet args now).term = max r.state.currentTerm args.term ∧
      ((r.appendEntriesRet args now).success = true ↔ r.Accepts args) := by
  have standing := (r.appendEntriesHeld_standing alive args now).2
  unfold appendEntriesRet
  split
  · next x ret he =>
    rw [appendEntriesHeld_eq, he, AppendOutcome.held] at standing
    by_cases accepts : r.Accepts args
    · obtain rfl := accepts.replied (congrArg Prod.snd he)
      rw [he]
      exact ⟨standing, iff_of_true rfl accepts⟩
    · rw [appendEntries_refused alive accepts] at he
      obtain ⟨rfl, replied⟩ := Prod.mk.inj he
      obtain rfl := AppendOutcome.replied.inj replied
      exact ⟨standing, iff_of_false (by simp) accepts⟩
  · next x u e rest he =>
    refine ⟨standing, iff_of_true rfl ?_⟩
    by_contra refuses
    rw [appendEntries_refused alive refuses] at he
    cases (Prod.mk.inj he).2

/-- The exchange stands at index `n`. -/
structure Backtracks (peer : Int) (items : List LogEntry) (n : ℕ) (l f : Replica) : Prop where
  leads : l.state.role = .leader
  alive : f.state.role ≠ .dead
  term : f.state.currentTerm = l.state.currentTerm
  logs : l.state.logs.items = items
  nextIndex : l.state.nextIndex.lookup peer = some (n : Int)
  inside : n ≤ items.length
  alike : Alike (abstractLog f.state.logs.items) (abstractLog items)

section Exchange
variable {peer : Int} {items : List LogEntry} {n : ℕ}

/-- The leader goes back by one, or the follower has all of its log. -/
theorem Backtracks.exchange (h : Backtracks peer items n l f) (junk now : Int) :
    let x := exchange peer l f junk now
    (x.2.2.success = false ∧ 0 < n ∧ Backtracks peer items (n - 1) x.1 x.2.1) ∨
    (x.2.2.success = true ∧ Backtracks peer items items.length x.1 x.2.1 ∧
      abstractLog items <+: abstractLog x.2.1.state.logs.items ∧
      x.1.state.matchIndex.lookup peer = some (items.length - 1 : Int)) := by
  obtain ⟨leads, alive, term, rfl, nextIndex, inside, alike⟩ := h
  intro x
  generalize args_eq : l.appendParams l.state.currentTerm n junk = args
  have eq : x = (l.appendReply peer l.state.currentTerm n args.entries.length
      (f.appendEntriesRet args now) now, f.appendEntriesHeld args now,
      f.appendEntriesRet args now) := by
    simp only [x, exchange, IntMap.subscript_of_lookup nextIndex]
    rw [← args_eq]
  have argsTerm : args.term = l.state.currentTerm := args_eq ▸ rfl
  have batch : Batch l.state.logs.items n l.state.logs.items.length args :=
    args_eq ▸ l.appendParams_batch l.state.currentTerm junk (Int.natCast_nonneg n)
      (Int.ofNat_le.mpr inside)
  obtain ⟨living, held⟩ := f.appendEntriesHeld_standing alive args now
  obtain ⟨retTerm, success⟩ := f.appendEntriesRet_eq alive args now
  rw [argsTerm, term, max_self] at held retTerm
  rw [eq]
  by_cases accepts : f.Accepts args
  · obtain ⟨m, c, fills, _, scanned⟩ := l.appendReply_scans leads retTerm.symm
      (success.mpr accepts) peer n args.entries.length now
    obtain ⟨y, wrote, followed⟩ := accepts.writes now
    have covers := (batch.merged alike accepts.2.2).message_whole
    rw [← abstractLog_length, List.take_length, ← wrote.items,
      ← y.followCommit_logs args.leaderCommit, ← followed] at covers
    have length : (n : Int) + args.entries.length = l.state.logs.items.length := by
      rw [batch.entries_length]
      omega
    rw [length] at fills scanned
    generalize l.appendReply peer _ n _ _ now = l' at scanned ⊢
    have state : l'.state.role = l.state.role ∧ l'.state.currentTerm = l.state.currentTerm ∧
        l'.state.logs = l.state.logs ∧ l'.state.matchIndex = m ∧
        l'.state.nextIndex = l.state.nextIndex.insert peer (l.state.logs.items.length : Int) := by
      rw [scanned]
      split <;> exact ⟨rfl, rfl, rfl, rfl, rfl⟩
    obtain ⟨role, term', logs, matchIndex, next⟩ := state
    refine Or.inr ⟨success.mpr accepts, ?_, covers, ?_⟩
    · refine ⟨role.trans leads, living, held.trans term'.symm, congrArg LogVector.items logs, ?_,
        le_rfl, .whole covers⟩
      rw [next]
      exact AList.lookup_insert _
    · rw [matchIndex]
      exact fills.lookup _ _ (AList.lookup_insert _)
  · have failed : (f.appendEntriesRet args now).success = false :=
      Bool.eq_false_iff.mpr (success.not.mpr accepts)
    -- at index 0 there is nothing to refuse
    have pos : 0 < n := by
      refine Nat.pos_of_ne_zero fun zero => accepts ⟨alive, ?_, ?_⟩
      · rw [argsTerm, term]
      · exact batch.prevMatches_iff.mpr (Or.inl zero)
    obtain ⟨s, wrote, _, refused⟩ := refused_writes accepts now
    have current : ¬ (f.appendEntriesRet args now).term > l.state.currentTerm := by
      rw [retTerm]
      exact lt_irrefl _
    have back : l.appendReply peer l.state.currentTerm n args.entries.length
        (f.appendEntriesRet args now) now = { l with state := { l.state with
          nextIndex := l.state.nextIndex.insert peer (n - 1) } } := by
      rw [appendReply, if_neg current, if_pos ⟨leads, retTerm.symm⟩, if_neg (by rw [failed]; simp)]
    refine Or.inl ⟨failed, pos, ?_⟩
    rw [back]
    refine ⟨leads, living, held, rfl, ?_, (Nat.sub_le _ _).trans inside, ?_⟩
    · rw [show ((n - 1 : ℕ) : Int) = n - 1 by omega]
      exact AList.lookup_insert _
    · rw [show (f.appendEntriesHeld args now).state.logs.items = f.state.logs.items by
        rw [refused]; exact wrote.items]
      exact alike

variable {junk now : ℕ → Int}

/-- The exchanges go on from where they stand until one is accepted. -/
theorem Backtracks.converges (junk now : ℕ → Int) (i : ℕ)
    (h : Backtracks peer items n (exchanges peer l f junk now i).1
      (exchanges peer l f junk now i).2) :
    ∃ k, i ≤ k ∧ k ≤ i + n ∧
      (∀ j, i ≤ j → j < k → (exchangeRet peer l f junk now j).success = false) ∧
      (exchangeRet peer l f junk now k).success = true ∧
      Backtracks peer items items.length (exchanges peer l f junk now (k + 1)).1
        (exchanges peer l f junk now (k + 1)).2 ∧
      abstractLog items <+: abstractLog (exchanges peer l f junk now (k + 1)).2.state.logs.items ∧
      (exchanges peer l f junk now (k + 1)).1.state.matchIndex.lookup peer =
        some (items.length - 1 : Int) := by
  induction n generalizing i with
  | zero =>
      rcases h.exchange (junk i) (now i) with ⟨_, pos, _⟩ | ⟨ok, done⟩
      · exact absurd pos (lt_irrefl 0)
      · exact ⟨i, le_rfl, le_rfl, fun j le lt => absurd lt (not_lt.mpr le), ok, done⟩
  | succ n ih =>
      rcases h.exchange (junk i) (now i) with ⟨failed, _, back⟩ | ⟨ok, done⟩
      · obtain ⟨k, le, bound, fails, rest⟩ := ih (i := i + 1) back
        refine ⟨k, by omega, by omega, fun j lower upper => ?_, rest⟩
        rcases lower.eq_or_lt with rfl | lower
        · exact failed
        · exact fails j lower upper
      · exact ⟨i, le_rfl, by omega, fun j le lt => absurd lt (not_lt.mpr le), ok, done⟩

theorem Backtracks.always (h : Backtracks peer items n l f) (junk now : ℕ → Int) (i : ℕ) :
    ∃ k, Backtracks peer items k (exchanges peer l f junk now i).1
      (exchanges peer l f junk now i).2 := by
  induction i with
  | zero => exact ⟨n, h⟩
  | succ i ih =>
      obtain ⟨k, here⟩ := ih
      rcases here.exchange (junk i) (now i) with ⟨_, _, back⟩ | ⟨_, done, _⟩
      · exact ⟨k - 1, back⟩
      · exact ⟨items.length, done⟩

/-- From `NextIndex` at the end of the log, where `becomeLeader` sets it, at most as many
requests are refused as the leader has entries. -/
theorem exchanges_converge (leads : l.state.role = .leader) (alive : f.state.role ≠ .dead)
    (term : f.state.currentTerm = l.state.currentTerm)
    (start : l.state.nextIndex.lookup peer = some l.state.logs.size)
    (alike : Alike (abstractLog f.state.logs.items) (abstractLog l.state.logs.items))
    (junk now : ℕ → Int) :
    ∃ n ≤ l.state.logs.items.length,
      (∀ i < n, (exchangeRet peer l f junk now i).success = false) ∧
      (exchangeRet peer l f junk now n).success = true ∧
      (∀ i, ∃ k, (exchanges peer l f junk now i).1.state.nextIndex.lookup peer = some k ∧ 0 ≤ k) ∧
      let x := exchanges peer l f junk now (n + 1)
      abstractLog l.state.logs.items <+: abstractLog x.2.state.logs.items ∧
        x.1.state.nextIndex.lookup peer = some l.state.logs.size ∧
        x.1.state.matchIndex.lookup peer = some (l.state.logs.size - 1) := by
  have first : Backtracks peer l.state.logs.items l.state.logs.items.length l f :=
    ⟨leads, alive, term, rfl, start, le_rfl, alike⟩
  obtain ⟨n, _, le, fails, ok, last, covers, matchIndex⟩ :=
    Backtracks.converges junk now 0 first
  refine ⟨n, by omega, fun i lt => fails i (Nat.zero_le i) lt, ok, fun i => ?_, covers,
    last.nextIndex, matchIndex⟩
  obtain ⟨k, here⟩ := first.always junk now i
  exact ⟨k, here.nextIndex, Int.natCast_nonneg k⟩

theorem becomeLeader_nextIndex (s : RaftState) (id now : Int) {peers : List Int}
    (mem : peer ∈ peers) :
    (s.becomeLeader id peers now).nextIndex.lookup peer = some s.logs.size :=
  (IntMap.lookup_foldl_insert peers ∅ s.logs.size peer).trans (if_pos mem)

theorem exchanges_converge_behind : ∃ n ≤ 2,
    (exchangeRet 2 { ahead with state := ahead.state.becomeLeader 1 [2] 0 } behind (fun _ => 0)
      (fun _ => 0) n).success = true := by
  obtain ⟨n, le, _, ok, _⟩ := @exchanges_converge
    { ahead with state := ahead.state.becomeLeader 1 [2] 0 } behind 2 rfl (by decide) rfl
    (becomeLeader_nextIndex ahead.state 1 0 List.mem_cons_self) (by decide) (fun _ => 0)
    fun _ => 0
  exact ⟨n, le, ok⟩

end Exchange

end Replica
end OhMyDb
