import OhMyDb.Lib.Ascending
import OhMyDb.Raft.Gaps
import OhMyDb.Raft.Replication
import OhMyDb.Raft.Senders

/-!
The terms along a log, and along the entries that are on their way into one: in a request, or
in a call of `AppendEntries` that has let go of the mutex.
-/

namespace OhMyDb
open Execution

/-- The terms of the entries. -/
def LogEntry.terms (es : List LogEntry) : List Int := es.map (·.term)

def AppendLogEntry.terms (es : List AppendLogEntry) : List Int := es.map (·.term)

/-- The entries of a request ascend up to its term, from the term of the previous one. -/
structure AppendEntriesParams.Ascends (args : AppendEntriesParams) : Prop where
  entries : Ascending args.term (AppendLogEntry.terms args.entries)
  prev : args.prevLogIndex ≠ -1 → ∀ t ∈ AppendLogEntry.terms args.entries, args.prevLogTerm ≤ t

namespace Core
variable {c d : Core} {es : List LogEntry} {stop : Option (PeerUpdate × List LogEntry)}

theorem Stops.logs (h : c.Stops es d stop) : ∃ pushed rest, es = pushed ++ rest ∧
    d.logs = c.logs ++ pushed ∧ d.currentTerm = c.currentTerm ∧ ∀ s ∈ stop, s.2 = rest := by
  cases stop with
  | none =>
      obtain ⟨_, rfl⟩ := h
      exact ⟨es, [], (List.append_nil _).symm, rfl, rfl, nofun⟩
  | some s =>
      obtain ⟨pushed, split, _, rfl⟩ := h
      exact ⟨pushed, s.2, split, rfl, rfl, fun s' e => Option.some.inj e ▸ rfl⟩

end Core

namespace Replica
variable {r r' : Replica}

/-- The log ascends up to the current term, and so do the entries that calls have still to
push. -/
structure LogOrder (r : Replica) : Prop where
  log : Ascending r.state.currentTerm (LogEntry.terms r.state.logs.items)
  held : ∀ h ∈ r.handlers, Ascending r.state.currentTerm (AppendLogEntry.terms h.rest)

theorem LogOrder.same (h : r.LogOrder) (items : r'.state.logs.items = r.state.logs.items)
    (term : r.state.currentTerm ≤ r'.state.currentTerm) (handlers : r'.handlers = r.handlers) :
    r'.LogOrder := by
  refine ⟨?_, fun x hx => ?_⟩
  · rw [items]
    exact h.log.mono term
  · rw [handlers] at hx
    exact (h.held x hx).mono term

/-- The term of the last entry stands for the log. -/
theorem LogOrder.le_lastTerm (h : r.LogOrder) : ∀ e ∈ r.state.logs.items,
    e.term ≤ r.state.logs.lastTerm := by
  intro e he
  unfold LogVector.lastTerm
  split
  · next l last =>
    refine h.log.le_getLast? ?_ e.term (List.mem_map_of_mem he)
    rw [LogEntry.terms, List.getLast?_map, last]
    rfl
  · next none => exact absurd he (List.getLast?_eq_none_iff.mp none ▸ List.not_mem_nil)

theorem entriesFrom_terms {logs : LogVector} {nextIndex : Int} (low : 0 ≤ nextIndex) :
    AppendLogEntry.terms (entriesFrom logs nextIndex) =
      (LogEntry.terms logs.items).drop nextIndex.toNat := by
  rw [entriesFrom, if_neg (Int.not_lt.mpr low), AppendLogEntry.terms, LogEntry.terms,
    ← List.map_drop]
  refine List.ext_getElem? fun i => ?_
  rw [List.getElem?_map, List.getElem?_mapIdx, List.getElem?_map, Option.map_map]
  rfl

/-- What is found at the place before the entries. -/
theorem prevTerm_mem {logs : LogVector} {nextIndex junk : Int} (positive : 0 < nextIndex)
    (inside : nextIndex ≤ logs.size) : prevTerm logs (nextIndex - 1) junk ∈
      (LogEntry.terms logs.items).take nextIndex.toNat := by
  unfold LogVector.size at inside
  have lt : (nextIndex - 1).toNat < logs.items.length := by omega
  have found : logs.at? (nextIndex - 1) = some logs.items[(nextIndex - 1).toNat] := by
    rw [LogVector.at?, if_pos (by omega)]
    exact List.getElem?_eq_getElem lt
  rw [prevTerm, if_pos (by omega), found, LogEntry.terms, ← List.map_take]
  refine List.mem_map_of_mem (List.mem_take_iff_getElem.mpr ⟨_, ?_, rfl⟩)
  omega

/-- What a sender thread sends ascends as the log does. -/
theorem appendParams_ascends {saved nextIndex junk : Int}
    (log : Ascending r.state.currentTerm (LogEntry.terms r.state.logs.items))
    (own : ∀ e ∈ entriesFrom r.state.logs nextIndex, e.term ≤ saved) :
    (r.appendParams saved nextIndex junk).Ascends := by
  by_cases low : 0 ≤ nextIndex
  · have terms := @entriesFrom_terms r.state.logs nextIndex low
    refine ⟨⟨?_, List.forall_mem_map.mpr own⟩, fun first t ht => ?_⟩
    · rw [appendParams, terms]
      exact log.sorted.sublist (List.drop_sublist _ _)
    · rw [appendParams, terms] at ht
      have inside := List.length_pos_of_mem ht
      rw [List.length_drop, LogEntry.terms, List.length_map] at inside
      have before := @prevTerm_mem r.state.logs nextIndex junk
        (lt_of_le_of_ne low fun zero => first (zero ▸ rfl)) (by rw [LogVector.size]; omega)
      have split := log.sorted
      rw [← List.take_append_drop nextIndex.toNat (LogEntry.terms r.state.logs.items)] at split
      exact (List.pairwise_append.mp split).2.2 _ before t ht
  · have none : entriesFrom r.state.logs nextIndex = [] := if_pos (Int.not_le.mp low)
    refine ⟨?_, ?_⟩ <;> simp only [appendParams, none]
    · exact .nil _
    · exact fun _ _ ht => absurd ht List.not_mem_nil

/-- The merge loop passes over entries of the same terms. -/
theorem matchingEntries_terms (ls : List LogEntry) (es : List AppendLogEntry) :
    (LogEntry.terms ls).take (matchingEntries ls es) =
      (AppendLogEntry.terms es).take (matchingEntries ls es) := by
  induction ls, es using matchingEntries.induct with
  | case1 l ls e es differ => simp [matchingEntries, differ]
  | case2 l ls e es same ih =>
      have same : l.term = e.term := not_not.mp same
      have head : matchingEntries (l :: ls) (e :: es) = matchingEntries ls es + 1 :=
        if_neg (not_not_intro same)
      rw [head, LogEntry.terms, AppendLogEntry.terms, List.map_cons, List.map_cons,
        List.take_succ_cons, List.take_succ_cons, same]
      exact congrArg _ ih
  | case3 ls es h => rw [matchingEntries.eq_2 _ _ h, List.take_zero, List.take_zero]

/-- The entries of a request continue the part of the log that they are merged into. -/
theorem merged_ascending {logs : LogVector} {args : AppendEntriesParams}
    (log : Ascending args.term (LogEntry.terms logs.items)) (ascends : args.Ascends)
    (prev : prevMatches logs args) :
    Ascending args.term (LogEntry.terms (logs.items.take (logInsertIndex logs args)) ++
      (AppendLogEntry.terms args.entries).drop (newEntriesIndex logs args)) := by
  have passed := matchingEntries_terms (logs.items.drop (args.prevLogIndex + 1).toNat) args.entries
  have split : LogEntry.terms (logs.items.take (logInsertIndex logs args)) =
      (LogEntry.terms logs.items).take (args.prevLogIndex + 1).toNat ++
        (AppendLogEntry.terms args.entries).take (newEntriesIndex logs args) := by
    rw [newEntriesIndex, ← passed, LogEntry.terms, LogEntry.terms, LogEntry.terms,
      ← List.map_take, ← List.map_take, ← List.map_append, logInsertIndex, List.take_add]
    rfl
  rw [split, List.append_assoc, List.take_append_drop]
  refine (log.sublist (List.take_sublist _ _)).append ascends.entries fun t ht u hu => ?_
  rcases prev with start | ⟨inside, same⟩
  · rw [start] at ht
    exact absurd ht List.not_mem_nil
  · have pos : 0 ≤ args.prevLogIndex := by
      by_contra neg
      rw [LogVector.at?, if_neg neg] at same
      cases same
    rw [LogVector.at?, if_pos pos, ← List.getElem?_map] at same
    -- the last entry that stays is the previous one of the request
    have last : args.prevLogTerm ∈
        ((LogEntry.terms logs.items).take (args.prevLogIndex + 1).toNat).getLast? := by
      rw [show (args.prevLogIndex + 1).toNat = args.prevLogIndex.toNat + 1 by omega,
        List.take_add_one,
        LogEntry.terms, same]
      simp
    exact ((log.sublist (List.take_sublist _ _)).le_getLast? last t ht).trans
      (ascends.prev (by omega) u hu)

theorem meetLeader_term (alive : r.state.role ≠ .dead) (args : AppendEntriesParams) (now : Int) :
    (r.core.meetLeader args now).currentTerm = max r.state.currentTerm args.term := by
  rw [← r.core_observeLeader alive args now]
  exact r.observeLeader_term args now

theorem terms_entry (es : List AppendLogEntry) :
    LogEntry.terms (es.map AppendLogEntry.entry) = AppendLogEntry.terms es :=
  List.map_map

theorem terms_append (es fs : List LogEntry) :
    LogEntry.terms (es ++ fs) = LogEntry.terms es ++ LogEntry.terms fs :=
  List.map_append

/-- A loop that pushes entries which continue the log. -/
theorem LogOrder.pushes {c : Core} {es : List AppendLogEntry} {outcome : AppendOutcome}
    (continues : Ascending c.currentTerm (LogEntry.terms c.logs ++ AppendLogEntry.terms es))
    (stops : c.Stops (es.map AppendLogEntry.entry) r.core outcome.stop)
    (held : ∀ h ∈ r.handlers, Ascending c.currentTerm (AppendLogEntry.terms h.rest))
    (owner : Int) (k : ℕ) (args : AppendEntriesParams) :
    (r.settle owner k args outcome).LogOrder := by
  obtain ⟨pushed, rest, split, logs, term, left⟩ := stops.logs
  have logs : r.state.logs.items = c.logs ++ pushed := logs
  have term : r.state.currentTerm = c.currentTerm := term
  rw [← terms_entry, split, terms_append, ← List.append_assoc, ← terms_append, ← logs, ← term]
    at continues
  have log := continues.sublist (List.sublist_append_left _ _)
  rw [← term] at held
  cases outcome with
  | replied ret => exact ⟨log, held⟩
  | suspended u e more =>
      refine ⟨log, fun h hh => ?_⟩
      rcases List.mem_append.mp hh with old | new
      · exact held h old
      · obtain rfl := List.mem_singleton.mp new
        have more : more.map AppendLogEntry.entry = rest := left _ rfl
        rw [← more, terms_entry] at continues
        exact continues.sublist (List.sublist_append_right _ _)

/-- A call of `AppendEntries` up to its end, or to where it lets go of the mutex. -/
theorem LogOrder.appendEntries (h : r.LogOrder) {args : AppendEntriesParams}
    (ascends : args.Ascends) (owner : Int) (k : ℕ) (now : Int) :
    ((r.appendEntries args now).1.settle owner k args (r.appendEntries args now).2).LogOrder := by
  have quiet := r.quiet_appendEntries args now
  rcases r.appendEntries_stops args now with ⟨merges, stops⟩ | ⟨still, same, none⟩
  · obtain ⟨alive, le, prev, _⟩ := merges
    have term : (r.core.meetLeader args now).currentTerm = args.term :=
      (meetLeader_term alive args now).trans (max_eq_right le)
    refine LogOrder.pushes ?_ stops (fun x hx => ?_) owner k args
    · rw [Core.truncate, Core.meetLeader_logs, AppendLogEntry.terms, List.map_drop]
      exact term.symm ▸ merged_ascending (h.log.mono le) ascends prev
    · rw [quiet.handlers] at hx
      exact term.symm ▸ (h.held x hx).mono le
  · have settled : (r.appendEntries args now).1.settle owner k args (r.appendEntries args now).2 =
        (r.appendEntries args now).1 := by
      cases outcome : (r.appendEntries args now).2 with
      | replied => rfl
      | suspended =>
          rw [outcome] at none
          cases none
    rw [settled]
    exact h.same ((congrArg Core.logs same).trans (Core.meetLeader_logs _ _))
      (r.appendEntries_term args now) quiet.handlers

/-- A call of `AppendEntries` that goes on, when what it has still to push continues the log. -/
theorem LogOrder.appendRest (h : r.LogOrder) {x : AppendHandler} {j : ℕ}
    (hx : r.handlers[j]? = some x)
    (meet : ∀ e ∈ x.rest.head?, ∀ l ∈ r.state.logs.items.getLast?, l.term ≤ e.term) :
    ((({ r with handlers := r.handlers.eraseIdx j }.checkIndex x.current).appendRest x.args
      x.rest).1.settle x.owner x.thread x.args
      (({ r with handlers := r.handlers.eraseIdx j }.checkIndex x.current).appendRest x.args
        x.rest).2).LogOrder := by
  have stops := appendRest_stops
    ({ r with handlers := r.handlers.eraseIdx j }.checkIndex x.current) x.args x.rest
  have quiet := (quiet_checkIndex { r with handlers := r.handlers.eraseIdx j } x.current).trans
    (quiet_appendRest _ x.args x.rest)
  rw [core_checkIndex] at stops
  refine LogOrder.pushes ?_ stops (fun y hy => ?_) _ _ _
  · refine h.log.join (h.held x (List.mem_of_getElem? hx)) fun t last u first => ?_
    rw [LogEntry.terms, List.getLast?_map] at last
    rw [AppendLogEntry.terms, List.head?_map] at first
    obtain ⟨l, hl, rfl⟩ := Option.mem_map.mp last
    obtain ⟨e, he, rfl⟩ := Option.mem_map.mp first
    exact meet e he l hl
  · rw [quiet.handlers] at hy
    exact h.held y (List.mem_of_mem_eraseIdx hy)

/-- The leader's loop pushes entries of the current term. -/
theorem LogOrder.leaderAppend (h : r.LogOrder) (saved : Int) (ops : List RaftOp) :
    (r.leaderAppend saved ops).LogOrder := by
  obtain ⟨stop, stops, _, handlers⟩ := leaderAppend_stops ops r saved
  obtain ⟨pushed, rest, split, logs, term, _⟩ := stops.logs
  have logs : (r.leaderAppend saved ops).state.logs.items = r.state.logs.items ++ pushed := logs
  have term : (r.leaderAppend saved ops).state.currentTerm = r.state.currentTerm := term
  refine ⟨?_, fun x hx => ?_⟩
  · rw [logs, term, terms_append]
    refine h.log.append_bound fun t ht => ?_
    obtain ⟨e, he, rfl⟩ := List.mem_map.mp ht
    have new : e ∈ r.core.leaderEntries ops := split ▸ List.mem_append_left _ he
    obtain ⟨op, _, rfl⟩ := List.mem_map.mp new
    rfl
  · rw [handlers] at hx
    exact term.symm ▸ h.held x hx

theorem LogOrder.raftImpl (h : r.LogOrder) : r.raftImpl.LogOrder := by
  unfold Replica.raftImpl
  split
  · exact h.same rfl le_rfl rfl
  · exact h.same rfl le_rfl rfl
  · exact h.leaderAppend _ _
  · next saved u rest _ => cases u <;> exact h.same rfl le_rfl rfl
  · exact h.leaderAppend _ _
  · exact h.same rfl le_rfl rfl
  · exact h.same rfl le_rfl rfl

theorem LogOrder.updateHandler (h : r.LogOrder) {x : AppendHandler} {j : ℕ}
    (hx : r.handlers[j]? = some x) (u : PeerUpdate) :
    { r.updatePeers u with
      handlers := (r.updatePeers u).handlers.set j { x with update := none } }.LogOrder := by
  have held : ∀ y ∈ (r.updatePeers u).handlers.set j { x with update := none },
      Ascending r.state.currentTerm (AppendLogEntry.terms y.rest) := by
    intro y hy
    rcases List.mem_or_eq_of_mem_set hy with old | rfl
    · cases u <;> exact h.held y old
    · exact h.held x (List.mem_of_getElem? hx)
  cases u <;> exact ⟨h.log, held⟩

/-- Without an append loop the entries stay as they are. -/
def Rules.reading : Rules where
  lead := False
  cut _ _ := False
  follow _ _ := False

theorem Changes.items (ch : Changes .reading r r') : r'.state.logs.items = r.state.logs.items := by
  refine ch.preserves (I := fun x => x.state.logs.items = r.state.logs.items)
    (fun x y same ch => ?_) rfl
  cases ch with
  | push saved op rest _ ok => exact ok.elim
  | follow hs h e rest _ _ _ _ ok => exact ok.elim
  | cut n ok => exact ok.elim
  | update saved u rest _ _ | updateHandler j h u _ _ _ => cases u <;> exact same
  | finish saved _ | leave hs h _ _ _ => exact (LogVector.persist_items _).trans same
  | _ => exact same

end Replica

namespace Cluster
open Replica (LogOrder)
variable {c c' : Cluster} {a : Action} {q : Int}

/-- A sender thread sends no entry of a later term than that of its request. -/
def SendsOwnTerms : Cluster → Action → Prop :=
  AtAppendSend fun r t => ∀ e ∈ Replica.entriesFrom r.state.logs
    (r.state.nextIndex.subscript t.peer 0).1, e.term ≤ t.savedCurrentTerm

instance (c : Cluster) (a : Action) : Decidable (c.SendsOwnTerms a) :=
  inferInstanceAs (Decidable (AtAppendSend _ c a))

/-- A call of `AppendEntries` that takes the mutex again finds no entry at the end of the log
whose term is later than that of the next entry it pushes. -/
def ResumesInOrder (c : Cluster) : Action → Prop
  | .appendResume p j => ∀ h ∈ (c.node p).handlers[j]?, h.update = none →
      ∀ e ∈ h.rest.head?, ∀ l ∈ (c.node p).state.logs.items.getLast?, l.term ≤ e.term
  | _ => True

instance (c : Cluster) (a : Action) : Decidable (c.ResumesInOrder a) :=
  match a with
  | .appendResume _ _ => inferInstanceAs (Decidable (∀ _, _ → _ → ∀ _, _ → ∀ _, _ → _))
  | .electionTick _ _ _ | .voteSend _ _ | .voteDeliver _ _ _ | .voteReturn _ _ _ _
  | .voteFail _ _ | .raftImpl _ | .appendSend _ _ _ | .appendDeliver _ _ _
  | .appendReturn _ _ _ _ | .appendFail _ _ | .executer _ _ | .clientGet _ _ | .clientPut _ _ _
  | .addServer _ _ | .removeServer _ _ | .callStep _ _ _ => inferInstanceAs (Decidable True)

/-- The logs ascend, and everything that is on its way into one. -/
structure LogsOrder (c : Cluster) : Prop where
  node : ∀ q, (c.node q).LogOrder
  sent : ∀ q, ∀ t ∈ (c.node q).appendThreads, ∀ args ∈ t.args, args.Ascends

theorem settleAppend_handlers (c : Cluster) (p owner : Int) (k : ℕ) (args : AppendEntriesParams)
    (x : Replica) (outcome : Replica.AppendOutcome) (q : Int) :
    ((c.settleAppend p owner k args x outcome).node q).handlers =
      ((c.set p (x.settle owner k args outcome)).node q).handlers := by
  cases outcome with
  | replied ret => exact pushAppendReply_same (·.handlers) (fun _ _ _ => rfl) owner k ret q
  | suspended u e rest => rfl

theorem set_logOrder {r : Int} {x : Replica} (h : (c.node q).LogOrder)
    (here : q = r → x.LogOrder) : ((c.set r x).node q).LogOrder :=
  set_cases here fun _ => h

theorem Transition.logOrder (tr : Transition c a c') (bare : ∀ p, (c.node p).Bare)
    (h : c.LogsOrder) (forward : c.NoStepBack a) (resumes : c.ResumesInOrder a) (q : Int) :
    (c'.node q).LogOrder := by
  have term := tr.term_le_iff.mpr forward q
  have reads (abides : c.Abides .reading a)
      (handlers : (c'.node q).handlers = (c.node q).handlers) : (c'.node q).LogOrder :=
    (h.node q).same (Replica.Changes.items (tr.changes bare abides q)) term handlers
  have set {r : Int} {x : Replica} (same : x.handlers = (c.node r).handlers) :
      ((c.set r x).node q).handlers = (c.node q).handlers := set_same (·.handlers) same q
  have settles {p owner : Int} {k : ℕ} {args : AppendEntriesParams} {x : Replica}
      {outcome : Replica.AppendOutcome} (ok : q = p → (x.settle owner k args outcome).LogOrder) :
      ((c.settleAppend p owner k args x outcome).node q).LogOrder := by
    have settled : ((c.set p (x.settle owner k args outcome)).node q).LogOrder :=
      set_logOrder (h.node q) ok
    have state : ((c.settleAppend p owner k args x outcome).node q).state =
        ((c.set p (x.settle owner k args outcome)).node q).state := by
      rw [settleAppend_state]
      cases outcome with
      | replied ret => rfl
      | suspended u e rest =>
          exact (settleAppend_state c p owner k args x (.suspended u e rest) q).symm
    exact settled.same (congrArg (·.logs.items) state) (congrArg RaftState.currentTerm state).ge
      (settleAppend_handlers _ _ _ _ _ _ _ _)
  cases tr with
  | electionTick r now timeout =>
      refine reads (by simp [Abides, Replica.Rules.reading]) (set ?_)
      unfold Replica.electionTick
      split <;> rfl
  | voteDeliver r k now t args _ _ _ =>
      refine reads (by simp [Abides, Replica.Rules.reading]) ?_
      have served := set ((c.node t.peer).requestVote_id args now).2.2.2.2
      exact (pushVoteReply_same (·.handlers) (fun _ _ _ => rfl) _ _ _ _).trans served
  | voteReturn r k reply now t _ _ _ =>
      refine reads (by simp [Abides, Replica.Rules.reading]) (set ?_)
      rcases (c.node r).voteReply_cases t.savedCurrentTerm reply now with
        ⟨e, _⟩ | ⟨_, _, e⟩ | ⟨_, _, ⟨_, e⟩ | ⟨_, _, _, e⟩⟩ <;> rw [e] <;> rfl
  | raftImpl r => exact set_logOrder (h.node q) fun e => e ▸ (h.node q).raftImpl
  | appendDeliver r k now t args ht ha _ =>
      refine settles fun e => ?_
      subst e
      exact (h.node t.peer).appendEntries (h.sent r t (List.mem_of_getElem? ht) args ha) r k now
  | appendUpdate p j x u hx _ =>
      refine set_logOrder (h.node q) fun e => ?_
      subst e
      exact (h.node q).updateHandler hx u
  | appendResume p j x hx hu =>
      refine settles fun e => ?_
      subst e
      exact (h.node q).appendRest hx (resumes x hx hu)
  | appendReturn r k reply now t args _ _ _ _ =>
      refine reads (by simp [Abides, Replica.Rules.reading]) (set ?_)
      rcases (c.node r).appendReply_cases t.peer t.savedCurrentTerm t.nextIndex
        args.entries.length reply now with ⟨_, e⟩ | ⟨_, quiet⟩
      · rw [e]
        rfl
      · exact quiet.handlers
  | executer r ok =>
      exact reads (by simp [Abides, Replica.Rules.reading])
        (set (Replica.quiet_executer _ ok).handlers)
  | addServer r args =>
      exact reads (by simp [Abides, Replica.Rules.reading])
        (set (Replica.quiet_addServer _ args).handlers)
  | removeServer r serverId =>
      exact reads (by simp [Abides, Replica.Rules.reading])
        (set (Replica.quiet_removeServer _ serverId).handlers)
  | callStep r j now call p _ hp =>
      refine reads (by simp [Abides, Replica.Rules.reading]) (set ?_)
      rcases Replica.advance_cases hp with ⟨_, e⟩ | ⟨_, quiet⟩
      · rw [e]
      · exact quiet.handlers
  | voteSend | voteFail | appendSend | appendFail | clientGet | clientPut =>
      exact reads (by simp [Abides, Replica.Rules.reading]) (set rfl)

/-- A step that sends entries of its own term, and pushes in order, keeps the logs ascending. -/
theorem LogsOrder.preserved (h : c.LogsOrder) (bare : ∀ p, (c.node p).Bare)
    (hs : c.step a = some c') (forward : c.NoStepBack a) (own : c.SendsOwnTerms a)
    (resumes : c.ResumesInOrder a) : c'.LogsOrder := by
  have tr := (Transition.of_step hs).2
  refine ⟨tr.logOrder bare h forward resumes, fun q t ht args ha => ?_⟩
  cases tr.sender ht with
  | goesOn t replies finished mem _ _ => exact h.sent q t mem args ha
  | sends k junk t e ht' _ _ _ =>
      subst e
      obtain rfl := Option.some.inj ha
      exact Replica.appendParams_ascends (h.node q).log (own t ht')
  | starts => cases ha

end Cluster
end OhMyDb
