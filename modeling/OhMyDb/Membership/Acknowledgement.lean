import OhMyDb.Membership.OneChange

/-!
What an `OK` of `AddServer` or `RemoveServer` says. A call recognises its change by
`LastConfigChangeIndex` alone; which entry of the log is its own is read off the
history, the queue being first in, first out.
-/

namespace OhMyDb
open Execution

/-- What a step of the call adds to `dispatchOut_`. -/
def Call.pushes : Call → List RaftOp
  | .queueing op _ => [op]
  | .addSubmit info _ => [{ command := .addServer info, promiseHandle := none }]
  | .removeSubmit serverId _ => [{ command := .removeServer serverId, promiseHandle := none }]
  | _ => []

/-- The index saved by a call that is about to submit its change. -/
def Call.prevAtSubmit (call : Call) : Option Int :=
  match call.membership with
  | some (_, .submit prev) => some prev
  | _ => none

/-- The index saved by a call that waits for its change to be committed. -/
def Call.prevAtCommit (call : Call) : Option Int :=
  match call.membership with
  | some (_, .waitCommit prev) => some prev
  | _ => none

/-- `AddServer` or `RemoveServer` has returned `OK`. -/
def Call.isOk : Call → Bool
  | .addReturned ret | .removeReturned ret => ret.errorCode = .ok
  | _ => false

theorem Call.prevAtCommit_eq {call : Call} {prev : Int} :
    call.prevAtCommit = some prev ↔
      ∃ command, call.membership = some (command, .waitCommit prev) := by
  unfold prevAtCommit
  split
  · next command p h => simp [h]
  · next other =>
    refine ⟨fun h => (by cases h), fun ⟨command, h⟩ => absurd h (other command prev)⟩

namespace Replica
variable {R : Rules} {r r' : Replica}

/-- The operations a leader has still to append, in order. -/
def queue (r : Replica) : List RaftOp := r.unpushed ++ r.dispatchOut

/-- The first index after `prev` at which the configuration changes. -/
def awaited (r : Replica) (prev : Int) : Option ℕ :=
  (List.range r.state.logs.items.length).find? fun n =>
    decide (prev < n) && r.state.logs.items[n]?.any LogEntry.isConfig

/-- Every change a call waits for is in the log. -/
def AllEntered (r : Replica) : Prop :=
  ∀ call ∈ r.calls, ∀ prev ∈ call.prevAtCommit, (r.awaited prev).isSome

instance (r : Replica) : Decidable r.AllEntered := inferInstanceAs (Decidable (∀ _ ∈ _, _))

/-- `raftIn_` is empty at the top of the loop, and `LastConfigChangeIndex` is past all
configuration entries. -/
structure Ordered (r : Replica) : Prop where
  idle : r.raftThread = .top → r.raftIn = []
  below : ∀ (n : ℕ) (e : LogEntry), r.state.logs.items[n]? = some e → e.isConfig = true →
    (n : Int) ≤ r.state.lastConfigChangeIndex

/-- `command` is the first change of the configuration after `prev`, at index `m`. -/
structure Entered (command : Command) (prev : Int) (m : ℕ) (r : Replica) : Prop where
  entry : ∃ e, r.state.logs.items[m]? = some e ∧ e.isConfig = true ∧ e.op.command = command
  later : prev < m
  first : ∀ (n : ℕ) (e : LogEntry), n < m → r.state.logs.items[n]? = some e →
    e.isConfig = true → (n : Int) ≤ prev

/-- A call waits for `command` to be committed. -/
def Awaits (r : Replica) (j : ℕ) (command : Command) (prev : Int) : Prop :=
  ∃ call, r.calls[j]? = some call ∧ call.membership = some (command, .waitCommit prev)

theorem Ordered.append (h : r.Ordered) (e : LogEntry) (n : ℕ) (x : LogEntry)
    (hn : (r.append e).state.logs.items[n]? = some x) (config : x.isConfig = true) :
    (n : Int) ≤ (r.append e).state.lastConfigChangeIndex := by
  simp only [Replica.append, LogVector.pushBack_items] at hn ⊢
  rcases List.getElem?_concat_cases hn with old | ⟨rfl, rfl⟩
  · have le := h.below n x old config
    have inside := (List.getElem?_eq_some_iff.mp old).1
    simp only [LogVector.size]
    split <;> omega
  · exact le_of_eq (if_pos (c := x.op.command.isConfig = true) config).symm

theorem Ordered.change (h : r.Ordered) (ch : Change R r r') : r'.Ordered := by
  have persisted : r.persistLogs.state.logs.items = r.state.logs.items := LogVector.persist_items _
  cases ch with
  | swap thread => exact ⟨fun t => (by cases t), h.below⟩
  | check thread _ => exact ⟨by split <;> exact fun t => (by cases t), h.below⟩
  | begin thread => exact ⟨fun t => (by cases t), h.below⟩
  | push saved op rest thread _ =>
      refine ⟨fun t => ?_, h.append _⟩
      cases u : op.command.peerUpdate r.id <;> simp [u, RaftThread.afterPush] at t
  | update saved u rest _ _ => cases u <;> exact ⟨fun t => (by cases t), h.below⟩
  | finish saved _ => exact ⟨fun t => (by cases t), fun n e he => h.below n e (persisted ▸ he)⟩
  | spawn saved _ => exact ⟨fun t => (by cases t), h.below⟩
  | clear _ => exact ⟨fun _ => rfl, h.below⟩
  | cut n _ =>
      refine ⟨h.idle, fun m e he => ?_⟩
      have items : (r.truncate n).state.logs.items = r.state.logs.items.take n :=
        LogVector.resize_items _ _
      rw [items, List.getElem?_take] at he
      exact h.below m e (Option.ite_none_right_eq_some.mp he).2
  | follow hs x e rest _ _ _ _ _ => exact ⟨h.idle, h.append _⟩
  | updateHandler j x u _ _ _ => cases u <;> exact ⟨h.idle, h.below⟩
  | leave hs x _ _ _ => exact ⟨h.idle, fun n e he => h.below n e (persisted ▸ he)⟩
  | _ => exact ⟨h.idle, h.below⟩

theorem Entered.append {command : Command} {prev : Int} {m : ℕ}
    (h : r.Entered command prev m) (es : List LogEntry)
    (items : r'.state.logs.items = r.state.logs.items ++ es) : r'.Entered command prev m := by
  obtain ⟨e, he, config⟩ := h.entry
  have inside := (List.getElem?_eq_some_iff.mp he).1
  refine ⟨⟨e, ?_, config⟩, h.later, fun n x lt hn => h.first n x lt ?_⟩
  · rw [items, List.getElem?_append_left inside]
    exact he
  · rwa [items, List.getElem?_append_left (lt.trans inside)] at hn

/-- A change in the log stays there until the log is cut below it. -/
theorem Entered.change {command : Command} {prev : Int} {m : ℕ} (h : r.Entered command prev m)
    (ch : Change R r r') (above : ∀ n, R.cut r n → m < n) : r'.Entered command prev m := by
  have persisted : r.persistLogs.state.logs.items = r.state.logs.items := LogVector.persist_items _
  cases ch with
  | push saved op rest _ _ => exact h.append [⟨r.state.currentTerm, op⟩] rfl
  | follow hs x e rest _ _ _ _ _ => exact h.append [⟨e.term, e.op⟩] rfl
  | update saved u rest _ _ => cases u <;> exact ⟨h.entry, h.later, h.first⟩
  | updateHandler j x u _ _ _ => cases u <;> exact ⟨h.entry, h.later, h.first⟩
  | finish saved _ => exact h.append [] (by simpa using persisted)
  | leave hs x _ _ _ => exact h.append [] (by simpa using persisted)
  | cut n ok =>
      have items : (r.truncate n).state.logs.items = r.state.logs.items.take n :=
        LogVector.resize_items _ _
      obtain ⟨e, he, config⟩ := h.entry
      refine ⟨⟨e, ?_, config⟩, h.later, fun k x lt hk => h.first k x lt ?_⟩
      · rw [items, List.getElem?_take, if_pos (above n ok)]
        exact he
      · rw [items, List.getElem?_take] at hk
        exact (Option.ite_none_right_eq_some.mp hk).2
  | _ => exact ⟨h.entry, h.later, h.first⟩

theorem awaited_eq_some {prev : Int} {m : ℕ} :
    r.awaited prev = some m ↔ ∃ command, r.Entered command prev m := by
  unfold awaited
  rw [List.find?_range_eq_some]
  constructor
  · rintro ⟨found, -, first⟩
    obtain ⟨later, config⟩ := Bool.and_eq_true_iff.mp found
    obtain ⟨e, he, config⟩ := (Option.any_eq_true _ _).mp config
    refine ⟨_, ⟨e, he, config, rfl⟩, of_decide_eq_true later, fun n x lt hn c => ?_⟩
    simpa [hn, c] using first n lt
  · rintro ⟨command, h⟩
    obtain ⟨e, he, config, _⟩ := h.entry
    refine ⟨by simp [he, config, h.later], by simpa using (List.getElem?_eq_some_iff.mp he).1,
      fun n lt => ?_⟩
    cases hn : r.state.logs.items[n]? with
    | none => simp
    | some x =>
        cases c : x.isConfig with
        | false => simp [c]
        | true => simpa [c] using h.first n x lt hn c

theorem awaited_eq_none {prev : Int} : r.awaited prev = none ↔
    ∀ (n : ℕ) (e : LogEntry), r.state.logs.items[n]? = some e → e.isConfig = true →
      (n : Int) ≤ prev := by
  unfold awaited
  rw [List.find?_eq_none]
  constructor
  · intro none n e he config
    simpa [he, config] using none n (by simpa using (List.getElem?_eq_some_iff.mp he).1)
  · intro below n _ found
    obtain ⟨later, config⟩ := Bool.and_eq_true_iff.mp found
    obtain ⟨e, he, config⟩ := (Option.any_eq_true _ _).mp config
    have := below n e he config
    have := of_decide_eq_true later
    omega

/-- Nothing after `LastConfigChangeIndex` is awaited. -/
theorem Ordered.awaited (h : r.Ordered) {prev : Int}
    (le : r.state.lastConfigChangeIndex ≤ prev) : r.awaited prev = none :=
  awaited_eq_none.mpr fun n e he config => Int.le_trans (h.below n e he config) le

theorem Awaits.change {j : ℕ} {command : Command} {prev : Int}
    (h : r'.Awaits j command prev) (ch : Change R r r') (call : ∀ r x, ¬ R.call r x) :
    r.Awaits j command prev := by
  obtain ⟨x, hx, stage⟩ := h
  cases ch with
  | client c _ =>
      rcases List.getElem?_concat_cases hx with old | ⟨-, rfl⟩
      · exact ⟨x, old, stage⟩
      · cases stage
  | start y _ waits =>
      rcases List.getElem?_concat_cases hx with old | ⟨-, rfl⟩
      · exact ⟨x, old, stage⟩
      · cases waits _ stage
  | call i y y' _ ok _ => exact absurd ok (call _ _)
  | queue i op it _ ok => exact absurd ok (call _ _)
  | submit i y y' c p _ ok _ _ => exact absurd ok (call _ _)
  | discard i op it ret hc _ =>
      have elsewhere : i ≠ j := by
        rintro rfl
        have inside := (List.getElem?_eq_some_iff.mp hc).1
        rw [List.getElem?_set_self inside] at hx
        cases hx
        cases stage
      rw [List.getElem?_set_ne elsewhere] at hx
      exact ⟨x, hx, stage⟩
  | update saved u rest _ _ => cases u <;> exact ⟨x, hx, stage⟩
  | updateHandler i y u _ _ _ => cases u <;> exact ⟨x, hx, stage⟩
  | _ => exact ⟨x, hx, stage⟩

/-- A change that concerns no call takes the next operation off the queue and pushes it,
or leaves the queue as it is. -/
theorem Change.takes (h : r.Ordered) (ch : Change R r r') (check : ∀ x, ¬ R.check x)
    (call : ∀ x y, ¬ R.call x y) :
    (∃ op, R.lead ∧ r.queue = op :: r'.queue ∧
      r'.state = (r.append ⟨r.state.currentTerm, op⟩).state) ∨
    (r'.queue = r.queue ∧
      ((∀ cs e, R.follow cs e → e.op.command.isConfig = false) →
        r'.state.lastConfigChangeIndex = r.state.lastConfigChangeIndex) ∧
      ((∀ cs e, ¬ R.follow cs e) → (∀ n, ¬ R.cut r n) →
        r'.state.logs.items = r.state.logs.items)) := by
  have persisted : r.persistLogs.state.logs.items = r.state.logs.items := LogVector.persist_items _
  cases ch with
  | push saved op rest thread lead =>
      refine Or.inl ⟨op, lead, ?_, rfl⟩
      simp only [Replica.queue, unpushed, RaftThread.afterPush_unpushed]
      simp [thread, RaftThread.unpushed, Replica.append]
  | swap thread =>
      refine Or.inr ⟨?_, fun _ => rfl, fun _ _ => rfl⟩
      simp [Replica.queue, unpushed, RaftThread.unpushed, thread, h.idle thread]
  | check thread ok => exact absurd ok (check _)
  | begin thread =>
      refine Or.inr ⟨?_, fun _ => rfl, fun _ _ => rfl⟩
      simp [Replica.queue, unpushed, RaftThread.unpushed, thread]
  | update saved u rest thread _ =>
      have same : (u : PeerUpdate) → ({ r.updatePeers u with
          raftThread := RaftThread.relocking saved rest } : Replica).queue = r.queue := by
        intro u
        cases u <;> simp [Replica.queue, unpushed, RaftThread.unpushed, thread, updatePeers,
          addPeer, removePeer]
      exact Or.inr ⟨same u, by cases u <;> exact fun _ => rfl,
        by cases u <;> exact fun _ _ => rfl⟩
  | updateHandler j x u _ _ _ =>
      exact Or.inr (by cases u <;> exact ⟨rfl, fun _ => rfl, fun _ _ => rfl⟩)
  | finish saved thread =>
      refine Or.inr ⟨?_, fun _ => rfl, fun _ _ => persisted⟩
      simp [Replica.queue, unpushed, RaftThread.unpushed, thread, persistLogs]
  | spawn saved thread =>
      refine Or.inr ⟨?_, fun _ => rfl, fun _ _ => rfl⟩
      simp [Replica.queue, unpushed, RaftThread.unpushed, thread]
  | clear thread =>
      refine Or.inr ⟨?_, fun _ => rfl, fun _ _ => rfl⟩
      simp [Replica.queue, unpushed, RaftThread.unpushed, thread]
  | cut n ok => exact Or.inr ⟨rfl, fun _ => rfl, fun _ none => absurd ok (none n)⟩
  | follow hs x e rest _ _ _ _ ok =>
      refine Or.inr ⟨rfl, fun plain => ?_, fun none => absurd ok (none _ _)⟩
      simp [Replica.append, plain _ _ ok]
  | leave hs x _ _ _ => exact Or.inr ⟨rfl, fun _ => rfl, fun _ _ => persisted⟩
  | call j x x' _ ok _ => exact absurd ok (call _ _)
  | queue j op it _ ok => exact absurd ok (call _ _)
  | submit j x x' command prev _ ok _ _ => exact absurd ok (call _ _)
  | _ => exact Or.inr ⟨rfl, fun _ => rfl, fun _ _ => rfl⟩

/-- The thread of `raftImpl` takes operations off the queue and appends them. -/
def Rules.draining : Rules where
  check _ := False
  call _ _ := False
  follow _ _ := False
  cut _ _ := False

theorem Changes.drains (h : r.Ordered) (ch : Changes .draining r r') :
    ∃ es, r'.state.logs.items = r.state.logs.items ++ es ∧
      r.queue = es.map (·.op) ++ r'.queue ∧
      (r'.state.lastConfigChangeIndex = r.state.lastConfigChangeIndex ∨
        ∃ (n : ℕ) (e : LogEntry), r'.state.logs.items[n]? = some e ∧ e.isConfig = true ∧
          r'.state.lastConfigChangeIndex = n) := by
  induction ch with
  | refl => exact ⟨[], by simp, by simp, Or.inl rfl⟩
  | @tail x x' before change ih =>
      obtain ⟨es, items, queue, last⟩ := ih
      have ordered := Changes.preserves before (fun _ _ => Ordered.change) h
      rcases change.takes ordered (fun _ no => no) (fun _ _ no => no) with
        ⟨op, -, queue', state⟩ | ⟨queue', last', items'⟩
      · refine ⟨es ++ [⟨x.state.currentTerm, op⟩], ?_, ?_, ?_⟩
        · rw [state, Replica.append, LogVector.pushBack_items, items, List.append_assoc]
        · rw [queue, queue', List.map_append, List.append_assoc]
          rfl
        · rw [state]
          simp only [Replica.append]
          split
          · next config =>
            exact Or.inr ⟨x.state.logs.items.length, ⟨x.state.currentTerm, op⟩, by simp, config,
              rfl⟩
          · rcases last with same | ⟨n, e, he, config, here⟩
            · exact Or.inl same
            · have inside := (List.getElem?_eq_some_iff.mp he).1
              exact Or.inr ⟨n, e, by simpa [List.getElem?_append_left inside] using he, config,
                here⟩
      · have items' := items' (fun _ _ no => no) (fun _ no => no)
        rw [queue', last' (fun _ _ => False.elim), items']
        exact ⟨es, items, queue, last⟩

/-- The change `command` submitted with ticket `k` is still in the queue or has been
dropped from it, or it is the first one in the log after `prev`. -/
inductive Tracked (tickets : List ℕ) (origins : List (Option ℕ)) (k : ℕ) (command : Command)
    (prev : Int) (r : Replica) : Prop where
  | queued : r.state.lastConfigChangeIndex ≤ prev →
      (∀ p ∈ r.queue.zip tickets, p.1.command.isConfig = true → p.1.command = command ∧ p.2 = k) →
      Tracked tickets origins k command prev r
  | entered (m : ℕ) : r.Entered command prev m → origins[m]? = some (some k) →
      Tracked tickets origins k command prev r

variable {tickets : List ℕ} {origins : List (Option ℕ)} {k : ℕ} {command : Command} {prev : Int}

/-- Operations are appended and taken off the queue. -/
theorem Tracked.drain (t : r.Tracked tickets origins k command prev) (h : r.Ordered)
    (paired : tickets.length = r.queue.length)
    (numbered : origins.length = r.state.logs.items.length)
    {es : List LogEntry} (items : r'.state.logs.items = r.state.logs.items ++ es)
    (queue : r.queue = es.map (·.op) ++ r'.queue)
    (last : r'.state.lastConfigChangeIndex = r.state.lastConfigChangeIndex ∨
      ∃ (n : ℕ) (e : LogEntry), r'.state.logs.items[n]? = some e ∧ e.isConfig = true ∧
        r'.state.lastConfigChangeIndex = n) :
    r'.Tracked (tickets.drop es.length) (origins ++ (tickets.take es.length).map some) k command
      prev := by
  cases t with
  | entered m entered here =>
      refine .entered m (entered.append es items) ?_
      rw [List.getElem?_append_left (List.getElem?_eq_some_iff.mp here).1]
      exact here
  | queued le own =>
      have zip : r.queue.zip tickets = (es.map (·.op)).zip (tickets.take es.length) ++
          r'.queue.zip (tickets.drop es.length) := by
        have length : (tickets.take es.length).length = (es.map (·.op)).length := by
          rw [queue] at paired
          simp only [List.length_append, List.length_map] at paired
          simp only [List.length_take, List.length_map]
          omega
        rw [← List.zip_append length.symm, List.take_append_drop, ← queue]
      -- the entries that have been appended are the call's own
      have fresh (n : ℕ) (e : LogEntry) (hn : r'.state.logs.items[n]? = some e)
          (config : e.isConfig = true) : (n : Int) ≤ prev ∨ e.op.command = command ∧
            (origins ++ (tickets.take es.length).map some)[n]? = some (some k) := by
        rw [items] at hn
        by_cases old : n < r.state.logs.items.length
        · rw [List.getElem?_append_left old] at hn
          have := h.below n e hn config
          exact Or.inl (by omega)
        · rw [List.getElem?_append_right (Nat.le_of_not_lt old)] at hn
          rw [List.getElem?_append_right (numbered ▸ Nat.le_of_not_lt old), numbered]
          generalize n - r.state.logs.items.length = i at hn
          have inside := (List.getElem?_eq_some_iff.mp hn).1
          have lt : i < tickets.length := by
            rw [paired, queue, List.length_append, List.length_map]
            omega
          have pair : (e.op, tickets[i]) ∈ r.queue.zip tickets := by
            rw [zip]
            refine List.mem_append_left _ (List.mem_iff_getElem?.mpr ⟨i, ?_⟩)
            rw [List.getElem?_zip_eq_some, List.getElem?_map, hn]
            exact ⟨rfl, by simp [inside, lt]⟩
          obtain ⟨same, ticket⟩ := own _ pair config
          exact Or.inr ⟨same, by simp [inside, lt, ← ticket]⟩
      cases found : r'.awaited prev with
      | some m =>
          obtain ⟨_, entered⟩ := awaited_eq_some.mp found
          obtain ⟨e, he, config, _⟩ := entered.entry
          obtain ⟨same, here⟩ := (fresh m e he config).resolve_left (Int.not_le.mpr entered.later)
          exact .entered m ⟨⟨e, he, config, same⟩, entered.later, entered.first⟩ here
      | none =>
          refine .queued ?_ fun p hp => own p (zip ▸ List.mem_append_right _ hp)
          rcases last with same | ⟨n, e, he, config, here⟩
          · omega
          · have := awaited_eq_none.mp found n e he config
            omega

/-- Operations are dropped, or others than changes of the configuration are queued. -/
theorem Tracked.requeue (t : r.Tracked tickets origins k command prev)
    (items : r'.state.logs.items = r.state.logs.items)
    (last : r'.state.lastConfigChangeIndex = r.state.lastConfigChangeIndex) {tickets' : List ℕ}
    (queue : ∀ p ∈ r'.queue.zip tickets', p.1.command.isConfig = true → p ∈ r.queue.zip tickets) :
    r'.Tracked tickets' origins k command prev := by
  cases t with
  | queued le own =>
      exact .queued (last ▸ le) fun p hp config => own p (queue p hp config) config
  | entered m entered here =>
      exact .entered m (entered.append [] (by simpa using items)) here

/-- What happens to a replica outside its own thread and calls: `config` says whether the
configuration can change, and `above` where the log can be cut. -/
def Rules.serving (config : Prop) (above : ℕ → Prop) : Rules where
  lead := False
  check _ := False
  call _ _ := False
  follow _ e := e.op.command.isConfig = true → config
  cut _ n := above n

theorem Changes.serves {config : Prop} {above : ℕ → Prop} (h : r.Ordered)
    (ch : Changes (.serving config above) r r') :
    r'.queue = r.queue ∧ (¬ config →
      r'.state.lastConfigChangeIndex = r.state.lastConfigChangeIndex) := by
  induction ch with
  | refl => exact ⟨rfl, fun _ => rfl⟩
  | tail before change ih =>
      have ordered := Changes.preserves before (fun _ _ => Ordered.change) h
      rcases change.takes ordered (fun _ no => no) (fun _ _ no => no) with
        ⟨_, no, _⟩ | ⟨queue, last, _⟩
      · exact no.elim
      · refine ⟨queue.trans ih.1, fun plain => (last fun _ e ok => ?_).trans (ih.2 plain)⟩
        exact Bool.eq_false_iff.mpr fun c => plain (ok c)

theorem Tracked.serve {config : Prop} {above : ℕ → Prop}
    (t : r.Tracked tickets origins k command prev) (h : r.Ordered)
    (ch : Changes (.serving config above) r r')
    (known : config → (r.awaited prev).isSome = true)
    (kept : ∀ m ∈ r.awaited prev, ∀ n, above n → m < n)
    {origins' : List (Option ℕ)}
    (same : ∀ m ∈ r.awaited prev, origins'[m]? = origins[m]?) :
    r'.Tracked tickets origins' k command prev := by
  obtain ⟨queue, last⟩ := ch.serves h
  cases t with
  | queued le own =>
      have none := h.awaited le
      refine .queued ?_ (queue ▸ own)
      rw [last fun c => absurd (known c) (by simp [none])]
      exact le
  | entered m entered here =>
      have found := awaited_eq_some.mpr ⟨_, entered⟩
      refine .entered m ?_ ((same m found).trans here)
      exact Changes.preserves ch (fun _ _ e ch => e.change ch (kept m found)) entered

/-- The log keeps what is below the index it is cut at. -/
theorem Change.length (ch : Change R r r') {lo : ℕ} (above : ∀ n, R.cut r n → lo ≤ n)
    (le : lo ≤ r.state.logs.items.length) : lo ≤ r'.state.logs.items.length := by
  have persisted : r.persistLogs.state.logs.items = r.state.logs.items := LogVector.persist_items _
  cases ch with
  | push saved op rest _ _ =>
      simp only [Replica.append, LogVector.pushBack_items, List.length_append]
      omega
  | follow hs x e rest _ _ _ _ _ =>
      simp only [Replica.append, LogVector.pushBack_items, List.length_append]
      omega
  | update saved u rest _ _ => cases u <;> exact le
  | updateHandler j x u _ _ _ => cases u <;> exact le
  | finish saved _ => exact persisted ▸ le
  | leave hs x _ _ _ => exact persisted ▸ le
  | cut n ok =>
      have items : (r.truncate n).state.logs.items = r.state.logs.items.take n :=
        LogVector.resize_items _ _
      rw [items, List.length_take]
      have := above n ok
      omega
  | _ => exact le

/-! The steps of the calls. -/

theorem advance_frame {now : Int} {call : Call} {p : Replica × Call}
    (h : r.advance now call = some p) :
    p.1.queue = r.queue ++ call.pushes ∧ p.1.calls = r.calls ∧
      p.1.state.logs = r.state.logs ∧ p.1.state.commitIndex = r.state.commitIndex ∧
      p.1.state.lastConfigChangeIndex = r.state.lastConfigChangeIndex := by
  have pushed (op : RaftOp) : (r.pushDispatch op).queue = r.queue ++ [op] :=
    (List.append_assoc _ _ _).symm
  have kept : r.queue = r.queue ++ [] := (List.append_nil _).symm
  cases call with
  | submitting op it =>
      simp only [advance] at h
      split at h <;> cases h <;> exact ⟨kept, rfl, rfl, rfl, rfl⟩
  | queueing op it =>
      cases h
      exact ⟨pushed op, rfl, rfl, rfl, rfl⟩
  | refused op it =>
      cases h
      exact ⟨kept, rfl, rfl, rfl, rfl⟩
  | waiting op it =>
      simp only [advance] at h
      split at h
      · obtain ⟨_, _, rfl⟩ := Option.map_eq_some_iff.mp h
        exact ⟨kept, rfl, rfl, rfl, rfl⟩
      · cases h
  | addSubmit info prev | removeSubmit serverId prev =>
      cases h
      exact ⟨pushed _, rfl, rfl, rfl, rfl⟩
  | addWaitPrev info n | removeWaitPrev serverId n =>
      simp only [advance] at h
      split at h
      · cases h
        exact ⟨kept, rfl, rfl, rfl, rfl⟩
      · split at h <;> cases h <;> exact ⟨kept, rfl, rfl, rfl, rfl⟩
  | addWaitCommit info prev n =>
      simp only [advance] at h
      split at h
      · cases h
        exact ⟨kept, rfl, rfl, rfl, rfl⟩
      · split at h
        · cases h
          exact ⟨kept, rfl, rfl, rfl, rfl⟩
        · split at h <;> cases h <;> exact ⟨kept, rfl, rfl, rfl, rfl⟩
  | removeWaitCommit serverId prev n =>
      simp only [advance] at h
      split at h
      · cases h
        split <;> exact ⟨kept, rfl, rfl, rfl, rfl⟩
      · split at h <;> cases h <;> exact ⟨kept, rfl, rfl, rfl, rfl⟩
  | returned op it ret => cases h
  | addReturned ret => cases h
  | removeReturned ret => cases h

/-- A call that waits for its change has been waiting, or submits it now. -/
theorem advance_waits {now : Int} {call : Call} {p : Replica × Call}
    (h : r.advance now call = some p)
    (waits : p.2.membership = some (command, .waitCommit prev)) :
    (call.membership = some (command, .waitCommit prev) ∧ call.prevAtSubmit = none ∧
      call.pushes = []) ∨
    (call.membership = some (command, .submit prev) ∧
      call.pushes = [{ command := command, promiseHandle := none }]) := by
  cases call with
  | submitting op it =>
      simp only [advance] at h
      split at h <;> cases h <;> cases waits
  | queueing op it =>
      cases h
      cases waits
  | refused op it =>
      cases h
      cases waits
  | waiting op it =>
      simp only [advance] at h
      split at h
      · obtain ⟨_, _, rfl⟩ := Option.map_eq_some_iff.mp h
        cases waits
      · cases h
  | addSubmit info _ | removeSubmit serverId _ =>
      cases h
      cases waits
      exact Or.inr ⟨rfl, rfl⟩
  | addWaitPrev info n | removeWaitPrev serverId n =>
      simp only [advance] at h
      split at h
      · cases h
        cases waits
      · split at h <;> cases h <;> cases waits
  | addWaitCommit info _ n =>
      simp only [advance] at h
      split at h
      · cases h
        cases waits
      · split at h
        · cases h
          cases waits
        · split at h <;> cases h <;> cases waits
          exact Or.inl ⟨rfl, rfl, rfl⟩
  | removeWaitCommit serverId _ n =>
      simp only [advance] at h
      split at h
      · cases h
        cases waits
      · split at h <;> cases h <;> cases waits
        exact Or.inl ⟨rfl, rfl, rfl⟩
  | returned op it ret => cases h
  | addReturned ret => cases h
  | removeReturned ret => cases h

/-- A call that returns `OK` finds a later change committed. -/
theorem advance_ok {now : Int} {call : Call} {p : Replica × Call} {stage : MembershipStage}
    (h : r.advance now call = some p) (member : call.membership = some (command, stage))
    (ok : p.2.isOk = true) :
    ∃ prev, stage = .waitCommit prev ∧ currentCommitted r.state prev := by
  cases call with
  | addSubmit info _ | removeSubmit serverId _ =>
      cases h
      cases ok
  | addWaitPrev info n | removeWaitPrev serverId n =>
      simp only [advance] at h
      split at h
      · cases h
        cases ok
      · split at h <;> cases h <;> cases ok
  | addWaitCommit info prev n =>
      cases member
      simp only [advance] at h
      split at h
      · cases h
        cases ok
      · split at h
        · next committed => exact ⟨prev, rfl, committed⟩
        · split at h <;> cases h <;> cases ok
  | removeWaitCommit serverId prev n =>
      cases member
      simp only [advance] at h
      split at h
      · next committed => exact ⟨prev, rfl, committed⟩
      · split at h <;> cases h <;> cases ok
  | _ => cases member

end Replica

namespace Cluster
variable {c c' : Cluster} {a : Action} {q : Int}

/-- Where a step cuts the log of replica `q`. -/
def cutOf (q : Int) (c : Cluster) : Action → Option ℕ
  | .appendDeliver r k now => (c.node r).appendThreads[k]?.bind fun t =>
      t.args.bind fun args => if t.peer = q then (c.node q).cut args now else none
  | _ => none

/-- What a step of a call adds to the queue of replica `q`. -/
def pushes (q : Int) (c : Cluster) : Action → List RaftOp
  | .callStep r j _ => if r = q then ((c.node q).calls[j]?.map Call.pushes).getD [] else []
  | _ => []

/-- For each operation in the queue of replica `q` the length the history had when it
was queued. Operations leave the queue at its front. -/
def tickets (q : Int) : List (Cluster × Action) → Cluster → List ℕ
  | [], _ => []
  | (c₀, a) :: h, c =>
      let line := tickets q h c₀ ++ (pushes q c₀ a).map fun _ => h.length
      line.drop (line.length - (c.node q).queue.length)

/-- For each entry of the log of replica `q` the ticket of the operation it was appended
for, where the replica has appended it as leader. -/
def origins (q : Int) : List (Cluster × Action) → Cluster → List (Option ℕ)
  | [], _ => []
  | (c₀, a) :: h, c =>
      let kept := (origins q h c₀).take ((cutOf q c₀ a).getD (origins q h c₀).length)
      let new := (c.node q).state.logs.items.length - kept.length
      kept ++ match a with
        | .raftImpl _ => ((tickets q h c₀).take new).map some
        | _ => List.replicate new none

/-- The ticket of the change that call `j` of replica `q` has submitted. -/
def submitted (q : Int) (j : ℕ) : List (Cluster × Action) → Option ℕ
  | [] => none
  | (c₀, .callStep r i _) :: h =>
      if r = q ∧ i = j ∧ ((c₀.node q).calls[j]?.bind Call.prevAtSubmit).isSome then
        some h.length
      else submitted q j h
  | _ :: h => submitted q j h

/-- The entry of call `j` of replica `q`, which makes the change `command`, is committed. -/
def OwnCommitted (q : Int) (j : ℕ) (command : Command) (h : List (Cluster × Action))
    (c : Cluster) : Prop :=
  ∃ k ∈ submitted q j h, ∃ n : ℕ, (n : Int) ≤ (c.node q).state.commitIndex ∧
    (origins q h c)[n]? = some (some k) ∧
    (c.node q).state.logs.items[n]?.map (·.op.command) = some command

/-- The change that the last step acknowledges, where call `j` of replica `q` returns `OK`
by it. -/
def acknowledged (q : Int) (j : ℕ) : List (Cluster × Action) → Cluster → Option Command
  | (c₀, .callStep r i _) :: _, c =>
      if r = q ∧ i = j ∧ (c.node q).calls[j]?.map Call.isOk = some true then
        ((c₀.node q).calls[j]?.bind Call.membership).map Prod.fst
      else none
  | _, _ => none

/-- `AddServer` and `RemoveServer` return `OK` for changes of their own. -/
def AcknowledgesOwn (h : List (Cluster × Action)) (c : Cluster) : Prop :=
  ∀ q j, ∀ command ∈ acknowledged q j h c, OwnCommitted q j command h c

/-- A call submits its change while no configuration entry is in the log since its wait
or in the queue. Meanwhile, and where configuration entries are received, every other
change waited for is in the log, and it is not cut off. -/
def AwaitsOwn (c : Cluster) : Action → Prop
  | .callStep r j _ => ∀ call ∈ (c.node r).calls[j]?, ∀ prev ∈ call.prevAtSubmit,
      (c.node r).state.lastConfigChangeIndex ≤ prev ∧
      (∀ op ∈ (c.node r).queue, op.command.isConfig = false) ∧ (c.node r).AllEntered
  | .appendDeliver r k now => ∀ t ∈ (c.node r).appendThreads[k]?, ∀ args ∈ t.args,
      ∀ n ∈ (c.node t.peer).cut args now,
        (∀ call ∈ (c.node t.peer).calls, ∀ prev ∈ call.prevAtCommit,
          ∀ m ∈ (c.node t.peer).awaited prev, m < n) ∧
        ((∃ e ∈ args.entries.drop
            (Replica.newEntriesIndex (c.node t.peer).state.logs args),
          e.op.command.isConfig = true) → (c.node t.peer).AllEntered)
  | .appendResume p j => ∀ h ∈ (c.node p).handlers[j]?, h.update = none →
      (∃ e ∈ h.rest, e.op.command.isConfig = true) → (c.node p).AllEntered
  | _ => True

instance (c : Cluster) (a : Action) : Decidable (c.AwaitsOwn a) :=
  match a with
  | .callStep _ _ _ => inferInstanceAs (Decidable (∀ _, _ → _))
  | .appendDeliver _ _ _ => inferInstanceAs (Decidable (∀ _, _ → _))
  | .appendResume _ _ => inferInstanceAs (Decidable (∀ _, _ → _))
  | .electionTick _ _ _ | .voteSend _ _ | .voteDeliver _ _ _ | .voteReturn _ _ _ _
  | .voteFail _ _ | .raftImpl _ | .appendSend _ _ _ | .appendReturn _ _ _ _ | .appendFail _ _
  | .executer _ _ | .clientGet _ _ | .clientPut _ _ _ | .addServer _ _ | .removeServer _ _ =>
      inferInstanceAs (Decidable True)

/-! The ghost lists, step by step. -/

section
variable {h : List (Cluster × Action)}

theorem tickets_drop (paired : (tickets q h c).length = (c.node q).queue.length)
    (none : pushes q c a = []) {m : ℕ} (le : m ≤ (c.node q).queue.length)
    (queue : (c'.node q).queue = (c.node q).queue.drop m) :
    tickets q ((c, a) :: h) c' = (tickets q h c).drop m := by
  have left : (tickets q h c).length - (c'.node q).queue.length = m := by
    rw [queue, List.length_drop, paired]
    omega
  simp only [tickets, none, List.map_nil, List.append_nil, left]

theorem tickets_same (paired : (tickets q h c).length = (c.node q).queue.length)
    (none : pushes q c a = []) (queue : (c'.node q).queue = (c.node q).queue) :
    tickets q ((c, a) :: h) c' = tickets q h c :=
  tickets_drop (m := 0) paired none (Nat.zero_le _) queue

theorem origins_same (numbered : (origins q h c).length = (c.node q).state.logs.items.length)
    (none : cutOf q c a = none)
    (items : (c'.node q).state.logs.items = (c.node q).state.logs.items) :
    origins q ((c, a) :: h) c' = origins q h c := by
  simp only [origins, none, Option.getD_none, List.take_length, items, ← numbered, Nat.sub_self]
  cases a <;> simp

/-- What is known of replica `q` and its calls. -/
structure Tracks (q : Int) (h : List (Cluster × Action)) (c : Cluster) : Prop where
  clients : (c.node q).ClientCalls
  ordered : (c.node q).Ordered
  paired : (tickets q h c).length = (c.node q).queue.length
  numbered : (origins q h c).length = (c.node q).state.logs.items.length
  calls : ∀ j command prev, (c.node q).Awaits j command prev → ∃ k ∈ submitted q j h,
    (c.node q).Tracked (tickets q h c) (origins q h c) k command prev

theorem Tracks.elsewhere (t : Tracks q h c) (tr : Transition c a c') (other : q ≠ c.server a) :
    Tracks q ((c, a) :: h) c' := by
  obtain ⟨vs, as, same⟩ := tr.elsewhere other
  have queue : (c'.node q).queue = (c.node q).queue := by rw [same]; rfl
  have items : (c'.node q).state.logs.items = (c.node q).state.logs.items := by rw [same]
  have none : pushes q c a = [] ∧ cutOf q c a = none := by
    cases tr with
    | callStep r j now call p _ _ => exact ⟨if_neg fun e => other e.symm, rfl⟩
    | appendDeliver r k now x args hx ha _ =>
        refine ⟨rfl, ?_⟩
        simp only [server, hx, Option.map_some, Option.getD_some] at other
        simp [cutOf, hx, ha, Ne.symm other]
    | _ => exact ⟨rfl, rfl⟩
  have line : tickets q ((c, a) :: h) c' = tickets q h c := tickets_same t.paired none.1 queue
  have log : origins q ((c, a) :: h) c' = origins q h c := origins_same t.numbered none.2 items
  refine ⟨?_, ⟨?_, ?_⟩, ?_, ?_, fun j command prev waits => ?_⟩
  · rw [same]
    exact t.clients
  · rw [same]
    exact t.ordered.idle
  · rw [same]
    exact t.ordered.below
  · rw [line, queue, t.paired]
  · rw [log, items, t.numbered]
  · rw [same] at waits
    obtain ⟨k, hk, tracked⟩ := t.calls j command prev waits
    refine ⟨k, ?_, ?_⟩
    · cases tr with
      | callStep r i now call p _ _ =>
          simp only [submitted]
          rw [if_neg fun e => other e.1.symm]
          exact hk
      | _ => exact hk
    · rw [line, log]
      exact tracked.requeue items (by rw [same]) fun p hp _ => queue ▸ hp

/-- Operations are appended, or dropped from the queue. -/
theorem Tracks.raftImpl (t : Tracks q h c) (bare : ∀ p, (c.node p).Bare)
    (tr : Transition c (.raftImpl q) c') : Tracks q ((c, .raftImpl q) :: h) c' := by
  have clients := t.clients.changes (tr.changes bare (abides_free _ _) q)
  have ordered : (c'.node q).Ordered := Replica.Changes.preserves
    (tr.changes bare (abides_free _ _) q) (fun _ _ => Replica.Ordered.change) t.ordered
  by_cases thread : (c.node q).raftThread = .swapped
  · have after : c'.node q = { c.node q with raftThread :=
        if (c.node q).state.role = .leader then .isLeader else .sleeping } := by
      cases tr
      rw [set_node, Function.update_self, Replica.raftImpl, thread]
    obtain ⟨m, le, queue⟩ : ∃ m ≤ (c.node q).queue.length,
        (c'.node q).queue = (c.node q).queue.drop m := by
      rw [after]
      split
      · refine ⟨0, Nat.zero_le _, ?_⟩
        simp [Replica.queue, Replica.unpushed, RaftThread.unpushed, thread]
      · refine ⟨(c.node q).raftIn.length, ?_, ?_⟩ <;>
          simp [Replica.queue, Replica.unpushed, RaftThread.unpushed, thread]
    have items : (c'.node q).state.logs.items = (c.node q).state.logs.items := by rw [after]
    have line := tickets_drop (a := .raftImpl q) t.paired rfl le queue
    have log := origins_same (a := .raftImpl q) t.numbered rfl items
    refine ⟨clients, ordered, ?_, ?_, fun j command prev waits => ?_⟩
    · rw [line, queue, List.length_drop, List.length_drop, t.paired]
    · rw [log, items, t.numbered]
    · rw [after] at waits
      obtain ⟨k, hk, tracked⟩ := t.calls j command prev waits
      refine ⟨k, hk, ?_⟩
      rw [line, log]
      refine tracked.requeue items (by rw [after]) fun p hp _ => ?_
      rw [queue, List.zip, ← List.drop_zipWith] at hp
      exact List.mem_of_mem_drop hp
  · have moved := tr.changes (R := .draining) bare
      ⟨True.intro, thread, fun _ _ _ _ => True.intro⟩ q
    obtain ⟨es, items, queue, last⟩ := Replica.Changes.drains t.ordered moved
    have line : tickets q ((c, .raftImpl q) :: h) c' = (tickets q h c).drop es.length := by
      refine tickets_drop (a := .raftImpl q) t.paired rfl ?_ ?_ <;> simp [queue]
    have log : origins q ((c, .raftImpl q) :: h) c' =
        origins q h c ++ ((tickets q h c).take es.length).map some := by
      have new : (c'.node q).state.logs.items.length - (origins q h c).length = es.length := by
        rw [items, t.numbered, List.length_append]
        omega
      simp only [origins, cutOf, Option.getD_none, List.take_length, new]
    refine ⟨clients, ordered, ?_, ?_, fun j command prev waits => ?_⟩
    · rw [line, List.length_drop, t.paired, queue]
      simp
    · have long : es.length ≤ (tickets q h c).length := by
        rw [t.paired, queue]
        simp
      rw [log, items, List.length_append, List.length_append, t.numbered, List.length_map,
        List.length_take, Nat.min_eq_left long]
    · have waited := Replica.Changes.preserves (I := fun r => r.Awaits j command prev →
        (c.node q).Awaits j command prev) moved
        (fun _ _ back ch aw => back (aw.change ch fun _ _ no => no)) id waits
      obtain ⟨k, hk, tracked⟩ := t.calls j command prev waited
      refine ⟨k, hk, ?_⟩
      rw [line, log]
      exact tracked.drain t.ordered t.paired t.numbered items queue last

/-- A call of the replica goes on, and may submit its change. -/
theorem Tracks.callStep (t : Tracks q h c) (bare : ∀ p, (c.node p).Bare) {j : ℕ} {now : Int}
    (tr : Transition c (.callStep q j now) c') (ok : c.AwaitsOwn (.callStep q j now)) :
    Tracks q ((c, .callStep q j now) :: h) c' := by
  have clients := t.clients.changes (tr.changes bare (abides_free _ _) q)
  have ordered : (c'.node q).Ordered := Replica.Changes.preserves
    (tr.changes bare (abides_free _ _) q) (fun _ _ => Replica.Ordered.change) t.ordered
  obtain ⟨call, p, hc, hp, after⟩ : ∃ call p, (c.node q).calls[j]? = some call ∧
      (c.node q).advance now call = some p ∧
      c'.node q = { p.1 with calls := p.1.calls.set j p.2 } := by
    cases tr with
    | callStep _ _ _ call p hc hp => exact ⟨call, p, hc, hp, Function.update_self _ _ _⟩
  obtain ⟨queue, calls, logs, _, last⟩ := Replica.advance_frame hp
  have queue' : (c'.node q).queue = (c.node q).queue ++ call.pushes := by rw [after]; exact queue
  have items' : (c'.node q).state.logs.items = (c.node q).state.logs.items := by
    rw [after]
    exact congrArg LogVector.items logs
  have last' : (c'.node q).state.lastConfigChangeIndex =
      (c.node q).state.lastConfigChangeIndex := by
    rw [after]
    exact last
  have line : tickets q ((c, .callStep q j now) :: h) c' =
      tickets q h c ++ call.pushes.map fun _ => h.length := by
    have length : (tickets q h c ++ call.pushes.map fun _ => h.length).length -
        (c'.node q).queue.length = 0 := by
      rw [queue', List.length_append, List.length_append, List.length_map, t.paired, Nat.sub_self]
    simp only [tickets, pushes, hc, if_true, Option.map_some, Option.getD_some, length,
      List.drop_zero]
  have log := origins_same (a := .callStep q j now) t.numbered rfl items'
  have zip : (c'.node q).queue.zip (tickets q ((c, .callStep q j now) :: h) c') =
      (c.node q).queue.zip (tickets q h c) ++
        call.pushes.zip (call.pushes.map fun _ => h.length) := by
    rw [queue', line, List.zip_append t.paired.symm]
  refine ⟨clients, ordered, ?_, ?_, fun i command prev waits => ?_⟩
  · rw [line, queue', List.length_append, List.length_append, List.length_map, t.paired]
  · rw [log, items', t.numbered]
  have kept (waits : (c.node q).Awaits i command prev)
      (plain : ∀ op ∈ call.pushes, op.command.isConfig = false) :
      ∃ k ∈ submitted q i h, (c'.node q).Tracked (tickets q ((c, .callStep q j now) :: h) c')
        (origins q ((c, .callStep q j now) :: h) c') k command prev := by
    obtain ⟨k, hk, tracked⟩ := t.calls i command prev waits
    refine ⟨k, hk, ?_⟩
    rw [log]
    refine tracked.requeue items' last' fun x hx config => ?_
    rw [zip] at hx
    refine (List.mem_append.mp hx).resolve_right fun new => ?_
    exact absurd config (Bool.eq_false_iff.mp (plain _ (List.of_mem_zip new).1))
  by_cases here : i = j
  · subst here
    obtain ⟨call', hc', stage⟩ := waits
    have inside := (List.getElem?_eq_some_iff.mp hc).1
    rw [after, calls, List.getElem?_set_self inside] at hc'
    cases hc'
    rcases Replica.advance_waits hp stage with ⟨waited, none, quiet⟩ | ⟨submits, pushed⟩
    · obtain ⟨k, hk, tracked⟩ := kept ⟨call, hc, waited⟩ (by simp [quiet])
      refine ⟨k, ?_, tracked⟩
      simp only [submitted, hc, Option.bind_some, none]
      simpa using hk
    · have saved : call.prevAtSubmit = some prev := by rw [Call.prevAtSubmit, submits]
      obtain ⟨le, plain, _⟩ := ok call hc prev saved
      refine ⟨h.length, ?_, .queued (last' ▸ le) fun x hx config => ?_⟩
      · simp [submitted, hc, saved]
      · rw [zip, pushed] at hx
        rcases List.mem_append.mp hx with old | new
        · exact absurd config (Bool.eq_false_iff.mp (plain _ (List.of_mem_zip old).1))
        · obtain rfl := List.mem_singleton.mp new
          exact ⟨rfl, rfl⟩
  · obtain ⟨call', hc', stage⟩ := waits
    rw [after, calls, List.getElem?_set_ne (Ne.symm here)] at hc'
    have same : submitted q i ((c, .callStep q j now) :: h) = submitted q i h := by
      simp only [submitted]
      exact if_neg fun e => here e.2.1.symm
    rw [same]
    cases saved : call.prevAtSubmit with
    | none =>
        refine kept ⟨call', hc', stage⟩ fun op hop => ?_
        cases call with
        | queueing op' it =>
            obtain rfl := List.mem_singleton.mp hop
            have client := t.clients _ (List.mem_of_getElem? hc) _ rfl
            cases command : op.command with
            | addServer | removeServer => simp [command, Command.isClient] at client
            | _ => rfl
        | addSubmit | removeSubmit => cases saved
        | _ => cases hop
    | some prev' =>
        obtain ⟨_, _, entered⟩ := ok call hc prev' saved
        obtain ⟨k, hk, tracked⟩ := t.calls i command prev ⟨call', hc', stage⟩
        refine ⟨k, hk, ?_⟩
        rw [log]
        cases tracked with
        | queued le own =>
            have none := t.ordered.awaited le
            have some_ := entered call' (List.mem_of_getElem? hc') prev
              (Call.prevAtCommit_eq.mpr ⟨command, stage⟩)
            rw [none] at some_
            cases some_
        | entered m entered at_ =>
            exact .entered m (entered.append [] (by simpa using items')) at_

/-- What a step of neither `raftImpl` nor a call keeps to, where all changes waited for
are kept. -/
theorem AwaitsOwn.abides (ok : c.AwaitsOwn a) (raft : ∀ r, a ≠ .raftImpl r)
    (calls : ∀ r j now, a ≠ .callStep r j now) {config : Prop} {above : ℕ → Prop}
    (known : (c.node (c.server a)).AllEntered → config)
    (kept : ∀ n ∈ cutOf (c.server a) c a, above n) : c.Abides (.serving config above) a := by
  cases a with
  | raftImpl r => exact absurd rfl (raft r)
  | callStep r j now => exact absurd rfl (calls r j now)
  | appendDeliver r k now =>
      refine ⟨True.intro, fun t ht args ha n hn => ?_⟩
      have ht : (c.node r).appendThreads[k]? = some t := ht
      have peer : c.server (.appendDeliver r k now) = t.peer := by simp [server, ht]
      rw [peer] at known kept
      refine ⟨kept n ?_, fun e he c => known ((ok t ht args ha n hn).2 ⟨e, he, c⟩)⟩
      have cut : (c.node t.peer).cut args now = some n := hn
      simp [cutOf, ht, Option.mem_def.mp ha, cut]
  | appendResume p j =>
      exact fun x hx => ⟨fun _ _ => True.intro,
        fun locked e he c => known (ok x hx locked ⟨e, he, c⟩)⟩
  | _ => simp [Abides, Replica.Rules.serving]

theorem AwaitsOwn.kept (ok : c.AwaitsOwn a) {call : Call} {prev : Int}
    (hc : call ∈ (c.node (c.server a)).calls) (waits : prev ∈ call.prevAtCommit) :
    ∀ n ∈ cutOf (c.server a) c a, ∀ m ∈ (c.node (c.server a)).awaited prev, m < n := by
  intro n hn
  cases a with
  | appendDeliver r k now =>
      obtain ⟨t, ht, hn⟩ := Option.bind_eq_some_iff.mp hn
      obtain ⟨args, ha, hn⟩ := Option.bind_eq_some_iff.mp hn
      have peer : c.server (.appendDeliver r k now) = t.peer := by simp [server, ht]
      rw [peer] at hc hn ⊢
      exact (ok t ht args ha n (by simpa using hn)).1 call hc prev waits
  | _ => cases hn

/-- A step of another kind. -/
theorem Tracks.serves (t : Tracks q h c) (bare : ∀ p, (c.node p).Bare) (tr : Transition c a c')
    (ok : c.AwaitsOwn a) (here : c.server a = q) (raft : ∀ r, a ≠ .raftImpl r)
    (calls : ∀ r j now, a ≠ .callStep r j now) : Tracks q ((c, a) :: h) c' := by
  subst here
  have moved (config : Prop) (above : ℕ → Prop)
      (known : (c.node (c.server a)).AllEntered → config)
      (kept : ∀ n ∈ cutOf (c.server a) c a, above n) :
      Replica.Changes (.serving config above) (c.node (c.server a)) (c'.node (c.server a)) :=
    tr.changes bare (ok.abides raft calls known kept) _
  generalize q_ : c.server a = q at *
  have none : pushes q c a = [] := by
    cases a with
    | callStep r j now => exact absurd rfl (calls r j now)
    | _ => rfl
  -- the log is cut at most where the step says
  generalize cut : (cutOf q c a).getD (origins q h c).length = lo
  have long : ((origins q h c).take lo).length ≤ (c'.node q).state.logs.items.length := by
    have free : Replica.Changes (.serving True (((origins q h c).take lo).length ≤ ·))
        (c.node q) (c'.node q) := by
      refine moved _ _ (fun _ => True.intro) fun n hn => ?_
      obtain rfl : n = lo := by rw [← cut, Option.mem_def.mp hn, Option.getD_some]
      exact List.length_take_le _ _
    refine Replica.Changes.preserves (I := fun r => _ ≤ r.state.logs.items.length) free
      (fun _ _ le ch => ch.length (fun _ ok => ok) le) ?_
    rw [List.length_take, t.numbered]
    exact Nat.min_le_right _ _
  have log : origins q ((c, a) :: h) c' = (origins q h c).take lo ++ List.replicate
      ((c'.node q).state.logs.items.length - ((origins q h c).take lo).length) Option.none := by
    rw [← cut]
    cases a with
    | raftImpl r => exact absurd rfl (raft r)
    | _ => rfl
  have free := moved True (fun _ => True) (fun _ => True.intro)
    fun _ _ => True.intro
  have queue := (Replica.Changes.serves t.ordered free).1
  have line := tickets_same (a := a) t.paired none queue
  refine ⟨t.clients.changes free, Replica.Changes.preserves free
    (fun _ _ => Replica.Ordered.change) t.ordered, ?_, ?_, fun j command prev waits => ?_⟩
  · rw [line, queue, t.paired]
  · rw [log, List.length_append, List.length_replicate]
    omega
  · have waited := Replica.Changes.preserves (I := fun r => r.Awaits j command prev →
      (c.node q).Awaits j command prev) free
      (fun _ _ back ch aw => back (aw.change ch fun _ _ no => no)) id waits
    obtain ⟨k, hk, tracked⟩ := t.calls j command prev waited
    obtain ⟨call, hc, stage⟩ := waited
    have saved : prev ∈ call.prevAtCommit := Call.prevAtCommit_eq.mpr ⟨command, stage⟩
    have mem := List.mem_of_getElem? hc
    have kept : ∀ n ∈ cutOf q c a, ∀ m ∈ (c.node q).awaited prev, m < n := by
      subst q_
      exact ok.kept mem saved
    refine ⟨k, ?_, ?_⟩
    · cases a with
      | callStep r i now => exact absurd rfl (calls r i now)
      | _ => exact hk
    · rw [line]
      refine tracked.serve t.ordered (moved ((c.node q).awaited prev).isSome
        (fun n => ∀ m ∈ (c.node q).awaited prev, m < n) (fun all => all call mem prev saved) kept)
        id (fun m hm n above => above m hm) fun m hm => ?_
      have below : m < lo := by
        rw [← cut]
        cases cut' : cutOf q c a with
        | some n => exact kept n cut' m hm
        | none =>
            obtain ⟨_, entered⟩ := Replica.awaited_eq_some.mp hm
            obtain ⟨e, he, _⟩ := entered.entry
            rw [Option.getD_none, t.numbered]
            exact (List.getElem?_eq_some_iff.mp he).1
      have inside : m < ((origins q h c).take lo).length := by
        obtain ⟨_, entered⟩ := Replica.awaited_eq_some.mp hm
        obtain ⟨e, he, _⟩ := entered.entry
        have := (List.getElem?_eq_some_iff.mp he).1
        rw [List.length_take, t.numbered]
        omega
      rw [log, List.getElem?_append_left inside, List.getElem?_take, if_pos below]

end

theorem tracks {servers : List Int} {config : Int → IntMap ServerInfo}
    {h : List (Cluster × Action)} (run : Run step (launch servers config) h c)
    (ok : Meets AwaitsOwn h) (q : Int) : Tracks q h c := by
  refine (run.invariant (I := fun h c => (∀ p, (c.node p).Bare) ∧ Tracks q h c) ok
    ⟨fun p => initialise_bare p (config p), ?_⟩ fun h c a c' hi ok hs => ?_).2
  · have fresh := Replica.initialise_fresh q (config q)
    refine ⟨.initialise q (config q), ⟨fun _ => fresh.raftIn, fun n e he => ?_⟩, ?_, ?_,
      fun j command prev ⟨call, hc, _⟩ => ?_⟩
    · simp [launch, fresh.logs] at he
    · simp [launch, tickets, Replica.queue, Replica.unpushed, RaftThread.unpushed,
        fresh.raftThread, fresh.raftIn, fresh.dispatchOut]
    · simp [launch, origins, fresh.logs]
    · simp [launch, fresh.calls] at hc
  · have tr := (Transition.of_step hs).2
    refine ⟨fun p => (hi.1 p).changes (tr.changes hi.1 (abides_free _ _) p), ?_⟩
    by_cases here : c.server a = q
    · cases a with
      | raftImpl r =>
          obtain rfl : r = q := here
          exact hi.2.raftImpl hi.1 tr
      | callStep r j now =>
          obtain rfl : r = q := here
          exact hi.2.callStep hi.1 tr ok
      | _ => exact hi.2.serves hi.1 tr ok here (by simp) (by simp)
    · exact hi.2.elsewhere tr (Ne.symm here)

/-- A call that returns `OK` has submitted the change that is committed. -/
theorem Tracks.acknowledges {h : List (Cluster × Action)} {r : Int} (t : Tracks r h c) {j : ℕ}
    {now : Int} (tr : Transition c (.callStep r j now) c') {command : Command}
    {stage : MembershipStage}
    (called : (c.node r).calls[j]?.bind Call.membership = some (command, stage))
    (returned : (c'.node r).calls[j]?.map Call.isOk = some true) :
    OwnCommitted r j command ((c, .callStep r j now) :: h) c' := by
  obtain ⟨call, p, hc, hp, after⟩ : ∃ call p, (c.node r).calls[j]? = some call ∧
      (c.node r).advance now call = some p ∧
      c'.node r = { p.1 with calls := p.1.calls.set j p.2 } := by
    cases tr with
    | callStep _ _ _ call p hc hp => exact ⟨call, p, hc, hp, Function.update_self _ _ _⟩
  obtain ⟨_, calls, logs, commit, _⟩ := Replica.advance_frame hp
  have items' : (c'.node r).state.logs.items = (c.node r).state.logs.items := by
    rw [after]
    exact congrArg LogVector.items logs
  have commit' : (c'.node r).state.commitIndex = (c.node r).state.commitIndex := by
    rw [after]
    exact commit
  have member : call.membership = some (command, stage) := by simpa [hc] using called
  have isOk : p.2.isOk = true := by
    have inside := (List.getElem?_eq_some_iff.mp hc).1
    rw [after, calls, List.getElem?_set_self inside] at returned
    simpa using returned
  obtain ⟨prev, rfl, later, committed⟩ := Replica.advance_ok hp member isOk
  obtain ⟨k, hk, tracked⟩ := t.calls j command prev ⟨call, hc, member⟩
  cases tracked with
  | queued le _ => exact absurd le (Int.not_le.mpr later)
  | entered m entered here =>
      obtain ⟨e, he, config, same⟩ := entered.entry
      have le := t.ordered.below m e he config
      refine ⟨k, ?_, m, ?_, ?_, ?_⟩
      · have quiet : call.prevAtSubmit = none := by rw [Call.prevAtSubmit, member]
        simp only [submitted, hc, Option.bind_some, quiet]
        simpa using hk
      · rw [commit']
        exact Int.le_trans le committed
      · rw [origins_same (a := .callStep r j now) t.numbered rfl items']
        exact here
      · rw [items', he, Option.map_some, same]

theorem acknowledgesOwn {servers : List Int} {config : Int → IntMap ServerInfo}
    {h : List (Cluster × Action)} (run : Run step (launch servers config) h c)
    (ok : Meets AwaitsOwn h) : AcknowledgesOwn h c := by
  intro q j command ack
  cases run with
  | start => cases ack
  | @next h c₀ _ a run hs =>
      cases a with
      | callStep r i now =>
          obtain ⟨⟨rfl, rfl, returned⟩, change⟩ := Option.ite_none_right_eq_some.mp ack
          obtain ⟨member, called, rfl⟩ := Option.map_eq_some_iff.mp change
          exact (tracks run ok.tail r).acknowledges (Transition.of_step hs).2 called returned
      | _ => cases ack

/-- Servers 2 and 3 receive the entry that adds server 4, and it is committed. -/
def replicatedAdd : List Action :=
  [.appendSend 1 1 0, .appendDeliver 1 1 20, .appendResume 3 0, .appendResume 3 0,
    .appendReturn 1 1 ⟨1, true⟩ 21, .appendSend 1 2 0, .appendDeliver 1 2 20,
    .appendResume 2 0, .appendResume 2 0, .appendReturn 1 2 ⟨1, true⟩ 22]

def acknowledgedAdd : List Action :=
  plainElection ++ addFourth 1 ++ [.raftImpl 1] ++ replicatedAdd ++ [.callStep 1 0 30]

theorem acknowledgesOwn_acknowledgedAdd :
    acknowledged 1 0 (outcome step (fixed threeServers) acknowledgedAdd).1
      (outcome step (fixed threeServers) acknowledgedAdd).2 =
        some (.addServer ⟨4, "", 0, 0, ""⟩) ∧
    AcknowledgesOwn (outcome step (fixed threeServers) acknowledgedAdd).1
      (outcome step (fixed threeServers) acknowledgedAdd).2 :=
  ⟨by decide +kernel, acknowledgesOwn (outcome_run _ _ _) (by decide +kernel)⟩

/-- Two calls pass the wait together. The second submits its change when that of the first
is committed, and takes it for its own. -/
def mistakenAdd : List Action :=
  plainElection ++ [.addServer 1 ⟨4, "", 0, 0, ""⟩, .addServer 1 ⟨5, "", 0, 0, ""⟩,
    .callStep 1 0 0, .callStep 1 1 0, .callStep 1 0 0] ++
    List.replicate 6 (.raftImpl 1) ++ replicatedAdd ++ [.callStep 1 1 30, .callStep 1 1 31]

theorem not_acknowledgesOwn : ¬ ∀ (servers : List Int) (config : Int → IntMap ServerInfo)
    (h : List (Cluster × Action)) (c : Cluster),
    Run step (launch servers config) h c → AcknowledgesOwn h c := by
  intro always
  have returned : acknowledged 1 1 (outcome step (fixed threeServers) mistakenAdd).1
      (outcome step (fixed threeServers) mistakenAdd).2 =
        some (.addServer ⟨5, "", 0, 0, ""⟩) := by decide +kernel
  have ticket : submitted 1 1 (outcome step (fixed threeServers) mistakenAdd).1 = some 25 := by
    decide +kernel
  have log : origins 1 (outcome step (fixed threeServers) mistakenAdd).1
      (outcome step (fixed threeServers) mistakenAdd).2 = [some 8] := by decide +kernel
  obtain ⟨k, hk, n, _, here, _⟩ := always _ _ _ _
    (outcome_run step (fixed threeServers) mistakenAdd) 1 1 _ returned
  rw [ticket] at hk
  rw [log] at here
  cases hk
  cases n <;> simp at here

end Cluster
end OhMyDb
