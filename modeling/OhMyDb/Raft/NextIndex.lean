import OhMyDb.Raft.Replication
import OhMyDb.Raft.Senders

/-!
What a sender thread finds in `NextIndex`. The log of a leader only grows, so that an entry
of the map made in this leadership stays inside it; but a thread may read when the
leadership is over, and take a reply in another one.
-/

namespace OhMyDb
open Execution

namespace Replica
variable {won : Prop} {r r' : Replica} {args : AppendEntriesParams} {reply : AppendEntriesRet}
  {now : Int}

/-- A request of the present term is refused for its previous entry only. -/
theorem appendEntries_refusal (alive : r.state.role ≠ .dead)
    (h : (r.appendEntries args now).2 = .replied reply) (refused : reply.success = false)
    (term : reply.term = args.term) : args.prevLogIndex ≠ -1 := by
  rw [appendEntries, if_neg alive] at h
  dsimp only at h
  split at h
  · unfold mergeEntries at h
    split at h
    · rw [appendRest_success h] at refused
      cases refused
    · cases h
      cases refused
  · next differs =>
    cases h
    exact fun start => differs ⟨term.symm, Or.inl start⟩

/-- The request was built for the entries from `nextIndex` on. -/
structure Asks (t : AppendThread) (args : AppendEntriesParams) : Prop where
  nextIndex : 0 ≤ t.nextIndex
  term : args.term = t.savedCurrentTerm
  prevLogIndex : args.prevLogIndex = t.nextIndex - 1

/-- Nobody is dead, and no index has ever been below the start of the log: a request without
a previous entry is not refused in its term. -/
structure Indexing (r : Replica) : Prop where
  alive : r.state.role ≠ .dead
  low : ∀ p v, r.state.nextIndex.lookup p = some v → 0 ≤ v
  asks : ∀ t ∈ r.appendThreads, ∀ args ∈ t.args, Asks t args
  refused : ∀ t ∈ r.appendThreads, ∀ reply ∈ t.replies, reply.success = false →
    t.args ≠ none ∧ (reply.term = t.savedCurrentTerm → t.nextIndex ≠ 0)

/-- The indices of a leader are inside its log, and so is what its present requests ask for. -/
structure Roomy (r : Replica) : Prop where
  high : r.state.role = .leader → ∀ p v, r.state.nextIndex.lookup p = some v →
    v ≤ r.state.logs.size
  room : r.state.role = .leader → ∀ t ∈ r.appendThreads, t.finished = false →
    t.savedCurrentTerm = r.state.currentTerm → ∀ args ∈ t.args,
      t.nextIndex + args.entries.length ≤ r.state.logs.size

theorem foldl_addPeer_nextIndex (ps : List Int) (r : Replica) :
    (ps.foldl addPeer r).state.nextIndex =
      ps.foldl (fun m p => m.insert p 0) r.state.nextIndex := by
  induction ps generalizing r with
  | nil => rfl
  | cons p ps ih => exact ih (r.addPeer p)

theorem initialise_numbered (id : Int) (config : IntMap ServerInfo) :
    (initialise id config).Indexing := by
  have fresh := initialise_fresh id config
  refine ⟨fresh.role ▸ nofun, fun p v hv => ?_, ?_, ?_⟩
  · rw [initialise, foldl_addPeer_nextIndex] at hv
    rcases lookup_foldl_insert _ _ hv with rfl | none
    · exact le_rfl
    · cases none
  · rw [fresh.appendThreads]
    exact fun _ ht => absurd ht List.not_mem_nil
  · rw [fresh.appendThreads]
    exact fun _ ht => absurd ht List.not_mem_nil

theorem initialise_roomy (id : Int) (config : IntMap ServerInfo) :
    (initialise id config).Roomy := by
  have follows : (initialise id config).state.role ≠ .leader := by
    rw [(initialise_fresh id config).role]
    exact nofun
  exact ⟨fun leads => absurd leads follows, fun leads => absurd leads follows⟩

theorem subscript_bounds {m : IntMap Int} {P : Int → Prop} (zero : P 0)
    (all : ∀ p v, m.lookup p = some v → P v) (p : Int) : P (m.subscript p 0).1 := by
  unfold IntMap.subscript
  split
  · next v hv => exact all p v hv
  · exact zero

theorem lookup_insert_bounds {m : IntMap Int} {P : Int → Prop} {p w : Int} (new : P w)
    (all : ∀ p v, m.lookup p = some v → P v) (q v : Int)
    (h : (m.insert p w).lookup q = some v) : P v := by
  by_cases e : q = p
  · subst e
    rw [AList.lookup_insert] at h
    exact Option.some.inj h ▸ new
  · rw [AList.lookup_insert_ne e] at h
    exact all q v h

theorem Office.alive (h : Office won r r') (alive : r.state.role ≠ .dead) :
    r'.state.role ≠ .dead := by
  cases h with
  | stays role _ _ _ => exact role ▸ alive
  | follows role _ | stands role _ | rises _ role _ _ _ => exact role ▸ nofun

theorem Office.low (h : Office won r r') (low : ∀ p v, r.state.nextIndex.lookup p = some v → 0 ≤ v)
    (p v : Int) (hv : r'.state.nextIndex.lookup p = some v) : 0 ≤ v := by
  cases h with
  | stays _ _ _ next => exact (next p v hv).elim (low p v) fun zero => zero ▸ le_rfl
  | follows _ next | stands _ next => exact low p v (next ▸ hv)
  | rises _ _ _ _ next => exact next p v hv ▸ Int.natCast_nonneg _

theorem size_le (h : r.state.logs.items <+: r'.state.logs.items) :
    r.state.logs.size ≤ r'.state.logs.size :=
  Int.ofNat_le.mpr h.length_le

theorem Office.high (h : Office won r r') (high : r.state.role = .leader →
      ∀ p v, r.state.nextIndex.lookup p = some v → v ≤ r.state.logs.size)
    (leads : r'.state.role = .leader) (p v : Int)
    (hv : r'.state.nextIndex.lookup p = some v) : v ≤ r'.state.logs.size := by
  cases h with
  | stays role _ logs next =>
      rcases next p v hv with old | rfl
      · exact (high (role ▸ leads) p v old).trans (size_le logs)
      · exact Int.natCast_nonneg _
  | follows role _ | stands role _ => exact absurd (role.symm.trans leads) nofun
  | rises _ _ _ logs next => exact logs ▸ (next p v hv).le

theorem Indexing.appendReply (n : r.Indexing) {t : AppendThread} (mem : t ∈ r.appendThreads)
    (ha : args ∈ t.args) (hr : reply ∈ t.replies) (now : Int) :
    let x := r.appendReply t.peer t.savedCurrentTerm t.nextIndex args.entries.length reply now
    x.state.role ≠ .dead ∧ ∀ p v, x.state.nextIndex.lookup p = some v → 0 ≤ v := by
  dsimp only
  rcases r.appendReply_answers t.peer t.savedCurrentTerm t.nextIndex args.entries.length reply now
    with ⟨_, e⟩ | ⟨_, _, e⟩ | ⟨_, same, m, i, j, e⟩
  · rw [e]
    exact ⟨nofun, n.low⟩
  · rw [e]
    exact ⟨n.alive, n.low⟩
  · rw [e]
    refine ⟨n.alive, lookup_insert_bounds ?_ n.low⟩
    have low := (n.asks t mem args ha).nextIndex
    split
    · omega
    · next no =>
      have later := (n.refused t mem reply hr (Bool.eq_false_iff.mpr no)).2 same.symm
      omega

theorem Roomy.appendReply (rm : r.Roomy) {t : AppendThread} (mem : t ∈ r.appendThreads)
    (ha : args ∈ t.args) (waiting : t.finished = false) (now : Int)
    (present : r.state.role = .leader → t.savedCurrentTerm = reply.term →
      r.state.currentTerm = t.savedCurrentTerm) :
    let x := r.appendReply t.peer t.savedCurrentTerm t.nextIndex args.entries.length reply now
    x.state.role = .leader → r.state.role = .leader ∧
      x.state.currentTerm = r.state.currentTerm ∧ x.state.logs = r.state.logs ∧
      ∀ p v, x.state.nextIndex.lookup p = some v → v ≤ r.state.logs.size := by
  intro x leads
  rcases r.appendReply_answers t.peer t.savedCurrentTerm t.nextIndex args.entries.length reply now
    with ⟨_, e⟩ | ⟨_, _, e⟩ | ⟨role, same, m, i, j, e⟩
  · exact absurd ((congrArg RaftState.role e).symm.trans leads) nofun
  · have led : r.state.role = .leader := (congrArg RaftState.role e).symm.trans leads
    exact ⟨led, congrArg RaftState.currentTerm e, congrArg RaftState.logs e, e ▸ rm.high led⟩
  · refine ⟨role, (congrArg RaftState.currentTerm e).trans rfl,
      (congrArg RaftState.logs e).trans rfl, ?_⟩
    rw [show x.state = _ from e]
    refine lookup_insert_bounds (P := (· ≤ r.state.logs.size)) ?_ (rm.high role)
    have room := rm.room role t mem waiting (present role same).symm args ha
    split <;> omega

/-- The entries that a request carries, where it is built from an index inside the log. -/
theorem entriesFrom_length {logs : LogVector} {nextIndex : Int} (low : 0 ≤ nextIndex)
    (high : nextIndex ≤ logs.size) :
    nextIndex + (entriesFrom logs nextIndex).length = logs.size := by
  rw [entriesFrom, if_neg (Int.not_lt.mpr low), List.length_mapIdx, List.length_drop]
  unfold LogVector.size at high ⊢
  omega

end Replica

namespace Cluster
open Replica (Indexing Roomy Office)
variable {c c' : Cluster} {a : Action} {q : Int}

theorem Transition.numbered (tr : Transition c a c') (bare : ∀ p, (c.node p).Bare)
    (n : ∀ p, (c.node p).Indexing) (q : Int) : (c'.node q).Indexing := by
  have asks : ∀ t ∈ (c'.node q).appendThreads, ∀ args ∈ t.args, Replica.Asks t args := by
    intro t ht args ha
    cases tr.sender ht with
    | goesOn t replies finished mem _ _ =>
        obtain ⟨low, term, prev⟩ := (n q).asks t mem args ha
        exact ⟨low, term, prev⟩
    | sends k junk t _ _ _ _ _ =>
        obtain rfl := Option.some.inj ha
        exact ⟨Replica.subscript_bounds le_rfl (n q).low t.peer, rfl, rfl⟩
    | starts => cases ha
  have refused : ∀ t ∈ (c'.node q).appendThreads, ∀ reply ∈ t.replies, reply.success = false →
      t.args ≠ none ∧ (reply.term = t.savedCurrentTerm → t.nextIndex ≠ 0) := by
    intro t ht reply hr no
    cases tr.sender ht with
    | goesOn t replies finished mem _ served =>
        rcases served reply hr with old | yes | ⟨args, ha, p, now, h⟩
        · exact (n q).refused t mem reply old no
        · exact absurd (yes.symm.trans no) nofun
        · have asked := (n q).asks t mem args ha
          refine ⟨fun none => Option.some_ne_none _ (ha.symm.trans none), fun same zero => ?_⟩
          have later := Replica.appendEntries_refusal (n p).alive h no (same.trans asked.term.symm)
          rw [asked.prevLogIndex, zero] at later
          exact later rfl
    | sends k junk t _ ht' none _ _ =>
        exact absurd none ((n q).refused t (List.mem_of_getElem? ht') reply hr no).1
    | starts => cases hr
  by_cases returns : ∃ k reply now, a = .appendReturn q k reply now
  · obtain ⟨k, reply, now, rfl⟩ := returns
    cases tr with
    | appendReturn _ _ _ _ t args ht ha _ hr =>
        have self (x : Replica) : (c.set q x).node q = x := Function.update_self _ _ _
        rw [self] at asks refused ⊢
        obtain ⟨alive, low⟩ := (n q).appendReply (List.mem_of_getElem? ht) ha hr now
        exact ⟨alive, low, asks, refused⟩
  · have office := @Transition.office c c' a q tr bare
      fun k reply now e => returns ⟨k, reply, now, e⟩
    exact ⟨office.alive (n q).alive, office.low (n q).low, asks, refused⟩

/-- A replica that is elected has no request of its own under way that was made for the same
term. -/
def WinsAnew (c : Cluster) : Action → Prop
  | .voteReturn r k reply now => (c.node r).state.role = .candidate →
      ∀ t ∈ (c.node r).voteThreads[k]?,
        ((c.node r).voteReply t.savedCurrentTerm reply now).state.role = .leader →
          ∀ s ∈ (c.node r).appendThreads, s.finished = false → s.args ≠ none →
            s.savedCurrentTerm ≠ (c.node r).state.currentTerm
  | _ => True

instance (c : Cluster) (a : Action) : Decidable (c.WinsAnew a) :=
  match a with
  | .voteReturn _ _ _ _ => inferInstanceAs (Decidable (_ → ∀ _, _ → _ → ∀ _, _ → _ → _ → _))
  | .electionTick _ _ _ | .voteSend _ _ | .voteDeliver _ _ _ | .voteFail _ _ | .raftImpl _
  | .appendSend _ _ _ | .appendDeliver _ _ _ | .appendResume _ _ | .appendReturn _ _ _ _
  | .appendFail _ _ | .executer _ _ | .clientGet _ _ | .clientPut _ _ _
  | .addServer _ _ | .removeServer _ _ | .callStep _ _ _ => inferInstanceAs (Decidable True)

theorem Elects.anew (elects : Elects q c a) (anew : c.WinsAnew a) : ∀ t ∈ (c.node q).appendThreads,
    t.finished = false → t.args ≠ none → t.savedCurrentTerm ≠ (c.node q).state.currentTerm := by
  cases a with
  | voteReturn r k reply now =>
      obtain ⟨rfl, candidate, t, ht, won⟩ := elects
      exact anew candidate t ht won
  | _ => exact elects.elim

/-- The thread reads `NextIndex` while its replica is leader. -/
def ReadsAsLeader : Cluster → Action → Prop :=
  AtAppendSend fun r _ => r.state.role = .leader

/-- What the thread reads in `NextIndex` is an index of the log, or the one after it. -/
def ReadsInRange : Cluster → Action → Prop :=
  AtAppendSend fun r t => t.args = none → t.finished = false →
    0 ≤ (r.state.nextIndex.subscript t.peer 0).1 ∧
      (r.state.nextIndex.subscript t.peer 0).1 ≤ r.state.logs.size

instance (c : Cluster) (a : Action) : Decidable (c.ReadsAsLeader a) :=
  inferInstanceAs (Decidable (AtAppendSend _ c a))

instance (c : Cluster) (a : Action) : Decidable (c.ReadsInRange a) :=
  inferInstanceAs (Decidable (AtAppendSend _ c a))

theorem Transition.roomy (tr : Transition c a c') (bare : ∀ p, (c.node p).Bare)
    (n : (c.node q).Indexing) (rm : (c.node q).Roomy) (anew : c.WinsAnew a)
    (present : c.RepliesOfThisTerm a) : (c'.node q).Roomy := by
  by_cases returns : ∃ k reply now, a = .appendReturn q k reply now
  · obtain ⟨k, reply, now, rfl⟩ := returns
    have goes {u : AppendThread} (hu : u ∈ (c'.node q).appendThreads)
        (waiting : u.finished = false) : ∃ t ∈ (c.node q).appendThreads, t.finished = false ∧
          t.savedCurrentTerm = u.savedCurrentTerm ∧ t.nextIndex = u.nextIndex ∧
            t.args = u.args := by
      cases tr.sender hu with
      | goesOn t replies finished mem unfinished _ =>
          exact ⟨t, mem, unfinished waiting, rfl, rfl, rfl⟩
      | sends k junk t e => cases e
      | starts saved p e => cases e
    cases tr with
    | appendReturn _ _ _ _ t args ht ha unfinished hr =>
        have self (x : Replica) : (c.set q x).node q = x := Function.update_self _ _ _
        rw [self] at goes ⊢
        have led := rm.appendReply (List.mem_of_getElem? ht) ha unfinished now (present t ht)
        refine ⟨fun leads => ?_, fun leads u hu waiting same args ha => ?_⟩
        · obtain ⟨_, _, logs, high⟩ := led leads
          exact fun p v hv => (high p v hv).trans (congrArg LogVector.size logs).ge
        · obtain ⟨role, term, logs, _⟩ := led leads
          obtain ⟨v, hv, running, saved, next, asked⟩ := goes hu waiting
          have room := rm.room role v hv running (saved.trans (same.trans term)) args (asked ▸ ha)
          rw [← next]
          exact room.trans (congrArg LogVector.size logs).ge
  · have office := @Transition.office c c' a q tr bare fun k reply now e =>
      returns ⟨k, reply, now, e⟩
    refine ⟨office.high rm.high, fun leads t ht waiting same args ha => ?_⟩
    -- a thread that has gone on, or one that has read while its replica is leader
    cases office with
    | stays role term logs next =>
        have led : (c.node q).state.role = .leader := role ▸ leads
        cases tr.sender ht with
        | goesOn t replies finished mem unfinished _ =>
            exact (rm.room led t mem (unfinished waiting) (same.trans term) args ha).trans
              (Replica.size_le logs)
        | sends k junk t _ _ _ _ _ =>
            obtain rfl := Option.some.inj ha
            have high := Replica.subscript_bounds (P := (· ≤ (c.node q).state.logs.size))
              (Int.natCast_nonneg _) (rm.high led) t.peer
            exact (Replica.entriesFrom_length (Replica.subscript_bounds le_rfl n.low t.peer)
              high).le.trans (Replica.size_le logs)
        | starts => cases ha
    | follows role _ | stands role _ => exact absurd (role.symm.trans leads) nofun
    | rises won role term logs next =>
        cases tr.sender ht with
        | goesOn t replies finished mem unfinished _ =>
            refine absurd (same.trans term) (won.anew anew t mem (unfinished waiting) ?_)
            exact fun none => Option.some_ne_none _ (ha.symm.trans none)
        | sends k junk t hs => subst hs; exact won.elim
        | starts => cases ha

theorem numbered {servers : List Int} {config : Int → IntMap ServerInfo}
    {h : List (Cluster × Action)} (run : Run step (launch servers config) h c) :
    ∀ q, (c.node q).Indexing := by
  refine (run.always (I := fun c => (∀ q, (c.node q).Bare) ∧ ∀ q, (c.node q).Indexing) ?_ ?_).2
  · exact ⟨fun q => initialise_bare q (config q), fun q => Replica.initialise_numbered q (config q)⟩
  · rintro c a c' ⟨bare, n⟩ hs
    have tr := (Transition.of_step hs).2
    exact ⟨fun q => (bare q).changes (tr.changes bare (c.abides_free a) q), tr.numbered bare n⟩

theorem roomy {servers : List Int} {config : Int → IntMap ServerInfo}
    {h : List (Cluster × Action)} (run : Run step (launch servers config) h c)
    (ok : Meets (fun c a => c.WinsAnew a ∧ c.RepliesOfThisTerm a) h) (q : Int) :
    (c.node q).Roomy := by
  induction run with
  | start => exact Replica.initialise_roomy q (config q)
  | @next h c c' a run hs ih =>
      exact (Transition.of_step hs).2.roomy (bare run) (numbered run q) (ih ok.tail) ok.head.1
        ok.head.2

/-- A leader reads an index inside its log, where replicas are elected anew and leaders take
replies for their present terms only. -/
theorem readsInRange {servers : List Int} {config : Int → IntMap ServerInfo}
    {h : List (Cluster × Action)} (run : Run step (launch servers config) h c)
    (ok : Meets (fun c a => c.WinsAnew a ∧ c.RepliesOfThisTerm a) h)
    (asLeader : c.ReadsAsLeader a) : c.ReadsInRange a := by
  cases a with
  | appendSend r k junk =>
      intro t ht _ _
      exact ⟨Replica.subscript_bounds le_rfl (numbered run r).low t.peer,
        Replica.subscript_bounds (P := (· ≤ (c.node r).state.logs.size)) (Int.natCast_nonneg _)
          ((roomy run ok r).high (asLeader t ht)) t.peer⟩
  | _ => exact True.intro

theorem readsInRange_answeredPut :
    ReadsInRange (outcome step (launch [1, 2, 3] fun _ => threeServers) (plainElection ++
      [.clientPut 1 5 7, .callStep 1 0 0, .callStep 1 0 0, .raftImpl 1, .raftImpl 1, .raftImpl 1,
        .raftImpl 1, .appendSend 1 0 0, .appendDeliver 1 0 20,
        .appendReturn 1 0 ⟨1, true⟩ 21])).2 (.appendSend 1 1 0) :=
  readsInRange (outcome_run _ _ _) (by decide +kernel) (by decide +kernel)

/-- Server 1 appends two operations in term 1, and is elected again in term 3. Its sender threads
have still to read `NextIndex` when server 3, whose log is empty, is elected in term 4 and sends
its first operation. -/
def cutLeader : List Action :=
  plainElection ++
    [.clientPut 1 5 7, .clientPut 1 6 8, .callStep 1 0 0, .callStep 1 0 0, .callStep 1 1 0,
      .callStep 1 1 0, .raftImpl 1, .raftImpl 1, .raftImpl 1, .raftImpl 1, .raftImpl 1,
      .electionTick 3 50 5, .voteSend 3 1, .voteDeliver 3 1 51,
      .electionTick 1 100 5, .voteSend 1 2, .voteDeliver 1 2 101, .voteReturn 1 2 ⟨3, true⟩ 102,
      .raftImpl 1, .raftImpl 1, .raftImpl 1, .raftImpl 1,
      .electionTick 3 200 5, .voteSend 3 2, .voteDeliver 3 2 201, .voteReturn 3 2 ⟨4, true⟩ 202,
      .clientPut 3 5 9, .callStep 3 0 0, .callStep 3 0 0,
      .raftImpl 3, .raftImpl 3, .raftImpl 3, .raftImpl 3, .appendSend 3 1 0, .appendDeliver 3 1 203]

/-- The thread finds 2 for server 2, and the log has one entry. -/
theorem not_readsInRange : ¬ ∀ (servers : List Int) (config : Int → IntMap ServerInfo)
    (h : List (Cluster × Action)) (c : Cluster) (a : Action),
    Run step (launch servers config) h c → c.ReadsInRange a := by
  intro always
  have inRange := always _ _ _ _ (.appendSend 1 3 0)
    (outcome_run step (launch [1, 2, 3] fun _ => threeServers) cutLeader)
  revert inRange
  decide +kernel

end Cluster
end OhMyDb
