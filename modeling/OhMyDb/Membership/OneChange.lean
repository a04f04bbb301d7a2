import OhMyDb.Membership.Peers

/-!
One configuration change at a time. A call waits until the previous change is
committed, and its own is in the log only after it has gone through the queue; what
keeps two calls from passing the wait together is left to the run.
-/

namespace OhMyDb
open Execution

/-- A call between its wait for the previous change and `submit`. -/
def Call.submits (call : Call) : Bool :=
  match call.membership with
  | some (_, .submit _) => true
  | _ => false

def LogEntry.isConfig (e : LogEntry) : Bool := e.op.command.isConfig

namespace Replica
variable {r r' : Replica} {own : List ℕ}

/-- The operations a leader has still to append. -/
def queued (r : Replica) : List RaftOp := r.dispatchOut ++ r.unpushed

/-- How many changes have passed the wait and are not in the log yet. -/
def changesUnderway (r : Replica) : ℕ :=
  r.calls.countP Call.submits + r.queued.countP fun op => op.command.isConfig

/-- The entry at index `n` changes the configuration and is not committed. -/
def openChange (r : Replica) (n : ℕ) : Bool :=
  decide (r.state.commitIndex < n) && (r.state.logs.items[n]?.any LogEntry.isConfig)

/-- A call that finds the previous change committed. -/
def Passes (r : Replica) (call : Call) : Prop :=
  (∃ command ∈ call.membership, command.2 = .waitPrev) ∧ prevCommitted r.state

instance (r : Replica) (call : Call) : Decidable (r.Passes call) :=
  inferInstanceAs (Decidable (_ ∧ _))

/-- The operations calls wait on are those of clients. -/
def ClientCalls (r : Replica) : Prop :=
  ∀ call ∈ r.calls, ∀ x ∈ call.submission, x.1.command.isClient = true

theorem ClientCalls.set (h : r.ClientCalls) {j : ℕ} {call : Call} (call' : Call)
    (hc : r.calls[j]? = some call) (same : call'.submission = call.submission)
    (calls : r'.calls = r.calls.set j call') : r'.ClientCalls := by
  intro x hx
  rw [calls] at hx
  rcases List.mem_or_eq_of_mem_set hx with hx | rfl
  · exact h x hx
  · rw [same]
    exact h call (List.mem_of_getElem? hc)

theorem ClientCalls.change {R : Rules} (h : r.ClientCalls) (ch : Change R r r') :
    r'.ClientCalls := by
  cases ch with
  | client command client =>
      intro x hx
      rcases List.mem_append.mp hx with hx | hx
      · exact h x hx
      · obtain rfl := List.mem_singleton.mp hx
        rintro y ⟨⟩
        exact client
  | start call none _ =>
      intro x hx
      rcases List.mem_append.mp hx with hx | hx
      · exact h x hx
      · obtain rfl := List.mem_singleton.mp hx
        simp [none]
  | call j call call' hc _ moves => exact h.set call' hc moves.submission rfl
  | queue j op it hc _ => exact h.set (.waiting op it) hc rfl rfl
  | discard j op it ret hc _ => exact h.set (.returned op it ret) hc rfl rfl
  | submit j call call' command prev hc _ stage stage' =>
      refine h.set call' hc ?_ rfl
      rw [Call.submission_of_membership stage, Call.submission_of_membership stage']
  | update saved u rest _ _ => cases u <;> exact h
  | updateHandler j x u _ _ _ => cases u <;> exact h
  | _ => exact h

theorem ClientCalls.changes {R : Rules} (h : r.ClientCalls) (ch : Changes R r r') :
    r'.ClientCalls :=
  ch.preserves (fun _ _ => ClientCalls.change) h

theorem ClientCalls.initialise (id : Int) (config : IntMap ServerInfo) :
    (initialise id config).ClientCalls := by
  simp [ClientCalls, (initialise_fresh id config).calls]

/-- At most one change is underway or, at one of the indices `own`, not committed. -/
structure OneAtATime (own : List ℕ) (r : Replica) : Prop where
  last : ∀ (n : ℕ) (e : LogEntry), r.state.logs.items[n]? = some e → e.isConfig = true →
    (n : Int) ≤ r.state.lastConfigChangeIndex
  inside : ∀ n ∈ own, n < r.state.logs.items.length
  single : r.changesUnderway + own.countP r.openChange ≤ 1

/-- Operations leave the queues. -/
theorem OneAtATime.keep (h : r.OneAtATime own) (calls : r'.calls = r.calls)
    (items : r'.state.logs.items = r.state.logs.items)
    (commit : r'.state.commitIndex = r.state.commitIndex)
    (last : r'.state.lastConfigChangeIndex = r.state.lastConfigChangeIndex)
    (queued : r'.queued.countP (fun op => op.command.isConfig) ≤
      r.queued.countP fun op => op.command.isConfig) : r'.OneAtATime own where
  last := by rw [items, last]; exact h.last
  inside := by rw [items]; exact h.inside
  single := by
    have same : r'.openChange = r.openChange := by
      funext n
      simp only [openChange, items, commit]
    have single := h.single
    simp only [changesUnderway, calls, same] at single ⊢
    omega

/-- An entry is appended, which the queue loses or another replica has sent. -/
theorem OneAtATime.append {s : Replica} (h : r.OneAtATime own) (e : LogEntry) (new : List ℕ)
    (calls : s.calls = r.calls)
    (items : s.state.logs.items = r.state.logs.items ++ [e])
    (commit : s.state.commitIndex = r.state.commitIndex)
    (last : s.state.lastConfigChangeIndex =
      if e.isConfig = true then r.state.logs.size else r.state.lastConfigChangeIndex)
    (here : ∀ n ∈ new, n = r.state.logs.items.length)
    (queued : s.queued.countP (fun op => op.command.isConfig) +
        new.countP (fun _ => e.isConfig) ≤
      r.queued.countP fun op => op.command.isConfig) : s.OneAtATime (own ++ new) where
  last n x hn config := by
    rw [items] at hn
    rw [last]
    rcases List.getElem?_concat_cases hn with old | ⟨rfl, rfl⟩
    · have le := h.last n x old config
      have inside := (List.getElem?_eq_some_iff.mp old).1
      split
      · simp only [LogVector.size]
        omega
      · exact le
    · rw [if_pos config, LogVector.size]
  inside n hn := by
    rw [items, List.length_append, List.length_singleton]
    rcases List.mem_append.mp hn with hn | hn
    · exact Nat.lt_succ_of_lt (h.inside n hn)
    · rw [here n hn]
      exact Nat.lt_succ_self _
  single := by
    have old : own.countP s.openChange = own.countP r.openChange := by
      refine List.countP_congr fun n hn => ?_
      rw [openChange, openChange, items, commit, List.getElem?_append_left (h.inside n hn)]
    have fresh : new.countP s.openChange ≤ new.countP fun _ => e.isConfig := by
      refine List.countP_mono_left fun n hn open_ => ?_
      simpa [openChange, items, here n hn] using (Bool.and_eq_true_iff.mp open_).2
    have single := h.single
    simp only [changesUnderway, calls, List.countP_append, old] at single ⊢
    omega

theorem countP_submits {j : ℕ} {call : Call} (call' : Call) (hc : r.calls[j]? = some call) :
    (r.calls.set j call').countP Call.submits + call.submits.toNat =
      r.calls.countP Call.submits + call'.submits.toNat := by
  obtain ⟨lt, rfl⟩ := List.getElem?_eq_some_iff.mp hc
  have pos := List.boole_getElem_le_countP (p := Call.submits) lt
  rw [List.countP_set lt]
  generalize r.calls[j].submits = before at pos ⊢
  generalize call'.submits = after
  cases before <;> cases after <;>
    simp only [Bool.toNat_false, Bool.toNat_true, if_true, Bool.false_eq_true,
      if_false] at pos ⊢ <;>
    omega

/-- A call goes on. -/
theorem OneAtATime.goOn (h : r.OneAtATime own) {j : ℕ} {call : Call}
    (hc : r.calls[j]? = some call) (call' : Call)
    (calls : r'.calls = r.calls.set j call') (state : r'.state = r.state)
    (single : call'.submits.toNat + r'.queued.countP (fun op => op.command.isConfig) ≤
        call.submits.toNat + r.queued.countP (fun op => op.command.isConfig) ∨
      r'.changesUnderway ≤ 1 ∧ own.countP r.openChange = 0) : r'.OneAtATime own where
  last := by rw [state]; exact h.last
  inside := by rw [state]; exact h.inside
  single := by
    have open_ : r'.openChange = r.openChange := by
      funext n
      simp only [openChange, state]
    have before := h.single
    have moved := countP_submits call' hc
    rw [open_]
    rcases single with le | ⟨le, none⟩
    · simp only [changesUnderway, calls] at before ⊢
      omega
    · omega

/-- Once the previous change is committed, no change is open. -/
theorem OneAtATime.committed (h : r.OneAtATime own) (committed : prevCommitted r.state) :
    own.countP r.openChange = 0 := by
  refine List.countP_eq_zero.mpr fun n _ open_ => ?_
  obtain ⟨later, config⟩ := Bool.and_eq_true_iff.mp open_
  obtain ⟨e, he, config⟩ := (Option.any_eq_true _ _).mp config
  have le := h.last n e he config
  have later := of_decide_eq_true later
  rcases committed with none | le'
  · omega
  · omega

theorem OneAtATime.change {R : Rules} (h : r.OneAtATime own) (clients : r.ClientCalls)
    (ch : Change R r r')
    (alone : ∀ call, R.call r call → r.Passes call → r.changesUnderway = 0)
    (cut : ∀ n, R.cut r n → own = []) : r'.OneAtATime own := by
  have persisted : r.persistLogs.state.logs.items = r.state.logs.items := LogVector.persist_items _
  cases ch with
  | swap thread =>
      refine h.keep rfl rfl rfl rfl ?_
      simp only [queued, unpushed, RaftThread.unpushed, thread, List.countP_append]
      omega
  | check thread _ =>
      refine h.keep rfl rfl rfl rfl ?_
      simp only [queued, unpushed, thread, List.countP_append]
      split <;> simp [RaftThread.unpushed]
  | begin thread =>
      exact h.keep rfl rfl rfl rfl (by simp [queued, unpushed, RaftThread.unpushed, thread])
  | push saved op rest thread _ =>
      have appended := h.append (s := { r.append ⟨r.state.currentTerm, op⟩ with
        raftThread := .afterPush saved rest (op.command.peerUpdate r.id) })
        ⟨r.state.currentTerm, op⟩ [] rfl rfl rfl rfl (by simp) (by
          simp only [queued, unpushed, RaftThread.afterPush_unpushed]
          simp [thread, RaftThread.unpushed, Replica.append, List.countP_cons])
      rwa [List.append_nil] at appended
  | update saved u rest thread _ =>
      cases u <;> exact h.keep rfl rfl rfl rfl (by
        simp [queued, unpushed, RaftThread.unpushed, thread, updatePeers, addPeer, removePeer])
  | finish saved thread =>
      exact h.keep rfl persisted rfl rfl (by
        simp [queued, unpushed, RaftThread.unpushed, thread, persistLogs])
  | spawn saved thread =>
      exact h.keep rfl rfl rfl rfl (by simp [queued, unpushed, RaftThread.unpushed, thread])
  | clear thread =>
      exact h.keep rfl rfl rfl rfl (by simp [queued, unpushed, RaftThread.unpushed, thread])
  | cut n ok =>
      obtain rfl := cut n ok
      have items : (r.truncate n).state.logs.items = r.state.logs.items.take n :=
        LogVector.resize_items _ _
      refine ⟨fun m e he => ?_, by simp, Nat.le_trans (Nat.le_add_right _ _) h.single⟩
      rw [items, List.getElem?_take] at he
      split at he
      · exact h.last m e he
      · cases he
  | follow hs x e rest _ _ _ _ _ =>
      have appended := h.append (s := { r.append ⟨e.term, e.op⟩ with
        handlers := hs ++ [{ x with
          current := e, rest := rest, update := e.op.command.peerUpdate r.id }] })
        ⟨e.term, e.op⟩ [] rfl rfl rfl rfl (by simp) (by exact Nat.le_refl _)
      rwa [List.append_nil] at appended
  | updateHandler j x u _ _ _ => cases u <;> exact ⟨h.last, h.inside, h.single⟩
  | leave hs x _ _ _ => exact h.keep rfl persisted rfl rfl (Nat.le_refl _)
  | commit i later inside =>
      refine ⟨h.last, h.inside, Nat.le_trans (Nat.add_le_add_left ?_ _) h.single⟩
      refine List.countP_mono_left fun n hn open_ => ?_
      obtain ⟨lt, config⟩ := Bool.and_eq_true_iff.mp open_
      refine Bool.and_eq_true_iff.mpr ⟨decide_eq_true ?_, config⟩
      have lt : i < n := of_decide_eq_true lt
      have bound := h.inside n hn
      simp only [LogVector.size] at later
      omega
  | client command _ =>
      refine ⟨h.last, h.inside, ?_⟩
      have single := h.single
      simp only [changesUnderway, clientCall, startCall, List.countP_append] at single ⊢
      exact single
  | start call none stage =>
      refine ⟨h.last, h.inside, ?_⟩
      have quiet : call.submits = false := by
        unfold Call.submits
        split
        · next command prev at_ => cases stage _ at_
        · rfl
      have single := h.single
      simp only [changesUnderway, startCall, List.countP_append, List.countP_singleton,
        quiet] at single ⊢
      exact single
  | call j call call' hc ok moves =>
      cases moves with
      | wait m stage stage' =>
          refine h.goOn hc call' rfl rfl (Or.inl ?_)
          have same : call'.submits = call.submits := by
            rw [Call.submits, Call.submits, stage, stage']
          rw [same]
          exact Nat.le_refl _
      | finish m _ none _ =>
          refine h.goOn hc call' rfl rfl (Or.inl ?_)
          rw [Call.submits, none]
          exact Nat.add_le_add_right (Nat.zero_le _) _
      | pass command stage committed stage' =>
          have none := alone call ok ⟨⟨_, stage, rfl⟩, committed⟩
          refine h.goOn hc call' rfl rfl (Or.inr ⟨?_, h.committed committed⟩)
          have moved := countP_submits call' hc
          have one : call'.submits = true := by rw [Call.submits, stage']
          have zero : call.submits = false := by rw [Call.submits, stage]
          rw [one, zero, Bool.toNat_false, Bool.toNat_true] at moved
          simp only [changesUnderway] at none
          change (r.calls.set j call').countP Call.submits + r.queued.countP _ ≤ 1
          omega
      | accept op it => exact h.goOn hc (.queueing op it) rfl rfl (Or.inl (Nat.le_refl _))
      | refuse op it => exact h.goOn hc (.refused op it) rfl rfl (Or.inl (Nat.le_refl _))
      | answer op it res ret _ _ =>
          exact h.goOn hc (.returned op it ret) rfl rfl (Or.inl (Nat.le_refl _))
  | queue j op it hc _ =>
      have client := clients _ (List.mem_of_getElem? hc) _ rfl
      refine h.goOn hc (.waiting op it) rfl rfl (Or.inl ?_)
      have plain : op.command.isConfig = false := by
        cases command : op.command with
        | addServer | removeServer => simp [command, Command.isClient] at client
        | _ => rfl
      simp [queued, unpushed, pushDispatch, plain, Call.submits, Call.membership]
  | submit j call call' command prev hc _ stage stage' =>
      refine h.goOn hc call' rfl rfl (Or.inl ?_)
      have one : call.submits = true := by rw [Call.submits, stage]
      have zero : call'.submits = false := by rw [Call.submits, stage']
      have config (b : Bool) : (if b = true then 1 else 0) ≤ 1 := by cases b <;> decide
      have le := config command.isConfig
      simp only [queued, unpushed, pushDispatch, one, zero, List.countP_append,
        List.countP_singleton, Bool.toNat_true, Bool.toNat_false]
      omega
  | discard j op it ret hc _ =>
      exact h.goOn hc (.returned op it ret) rfl rfl (Or.inl (Nat.le_refl _))
  | _ => exact ⟨h.last, h.inside, h.single⟩

/-! Which entries a leader has appended itself. -/

/-- A call passes the wait while no other change is underway. -/
def Rules.alone : Rules where
  call r call := r.Passes call → r.changesUnderway = 0

/-- Besides, the log grows by the leader's own entries only. -/
def Rules.appending : Rules where
  call r call := r.Passes call → r.changesUnderway = 0
  follow _ _ := False
  cut _ _ := False

/-- Besides, replica `q` does not become leader, and leaders do not cut their logs. -/
def Rules.leading (q : Int) : Rules where
  call r call := r.Passes call → r.changesUnderway = 0
  rise r := r.id ≠ q
  cut r _ := r.state.role ≠ .leader

theorem OneAtATime.pushes (h : r.OneAtATime own) (clients : r.ClientCalls)
    (ch : Changes .appending r r') :
    ∃ k, r'.state.logs.items.length = r.state.logs.items.length + k ∧
      r'.OneAtATime (own ++ List.range' r.state.logs.items.length k) := by
  induction ch with
  | refl => exact ⟨0, rfl, by simpa using h⟩
  | @tail x x' before last ih =>
      obtain ⟨k, length, inv⟩ := ih
      have kept := inv.change (clients.changes before) last (fun _ ok => ok) fun _ => False.elim
      have persisted : x.persistLogs.state.logs.items = x.state.logs.items :=
        LogVector.persist_items _
      cases last with
      | push saved op rest thread _ =>
          have appended := inv.append (s := { x.append ⟨x.state.currentTerm, op⟩ with
            raftThread := .afterPush saved rest (op.command.peerUpdate x.id) })
            ⟨x.state.currentTerm, op⟩ [x.state.logs.items.length] rfl rfl rfl rfl (by simp) (by
              simp only [queued, unpushed, RaftThread.afterPush_unpushed]
              simp [thread, RaftThread.unpushed, Replica.append, List.countP_cons,
                LogEntry.isConfig, Nat.add_assoc])
          refine ⟨k + 1, ?_, ?_⟩
          · simp only [Replica.append, LogVector.pushBack_items, List.length_append,
              List.length_singleton]
            omega
          · rw [List.range'_1_concat, ← List.append_assoc, ← length]
            exact appended
      | follow _ _ _ _ _ _ _ _ no => exact no.elim
      | cut n no => exact no.elim
      | update saved u rest _ _ => cases u <;> exact ⟨k, length, kept⟩
      | updateHandler j y u _ _ _ => cases u <;> exact ⟨k, length, kept⟩
      | finish saved _ => exact ⟨k, persisted ▸ length, kept⟩
      | leave hs y _ _ _ => exact ⟨k, persisted ▸ length, kept⟩
      | _ => exact ⟨k, length, kept⟩

theorem OneAtATime.none (h : r.OneAtATime own) : r.OneAtATime [] :=
  ⟨h.last, by simp, Nat.le_trans (Nat.le_add_right _ _) h.single⟩

/-- While the replica stays leader. -/
theorem OneAtATime.leads {q : Int} (h : r.OneAtATime own) (id : r.id = q)
    (clients : r.ClientCalls) (ch : Changes (.leading q) r r')
    (lead' : r'.state.role = .leader) : r'.OneAtATime own := by
  suffices inv : r'.id = q ∧ r'.ClientCalls ∧ (r'.state.role = .leader →
      r'.OneAtATime own) from inv.2.2 lead'
  refine ch.preserves (I := fun x => x.id = q ∧ x.ClientCalls ∧
    (x.state.role = .leader → x.OneAtATime own)) (fun x x' hx last =>
      ⟨last.id.trans hx.1, hx.2.1.change last, fun lead' => ?_⟩) ⟨id, clients, fun _ => h⟩
  have lead := (last.role lead').resolve_right fun ne => ne hx.1
  exact (hx.2.2 lead).change hx.2.1 last (fun _ ok => ok) fun _ ne => absurd lead ne

end Replica

namespace Cluster
variable {c c' : Cluster}

/-- The indices a step lets replica `r` append to its log as `runLeaderOneIter` does. -/
def appends (r : Int) (c c' : Cluster) : Action → List ℕ
  | .raftImpl _ => List.range' (c.node r).state.logs.items.length
      ((c'.node r).state.logs.items.length - (c.node r).state.logs.items.length)
  | _ => []

/-- The indices replica `r` has appended since it is leader. -/
def ownAppends (r : Int) : List (Cluster × Action) → Cluster → List ℕ
  | [], _ => []
  | (c₀, a) :: h, c =>
      if (c₀.node r).state.role = .leader ∧ (c.node r).state.role = .leader then
        ownAppends r h c₀ ++ appends r c₀ c a
      else []

/-- Of the entries a replica has appended in its current leadership, at most one
changes the configuration and is not committed. -/
def OneChange (h : List (Cluster × Action)) (c : Cluster) : Prop :=
  ∀ r, (ownAppends r h c).countP (c.node r).openChange ≤ 1

/-- A call ends its wait for the previous change while no other call is between its
wait and `submit`, and no change is in the queues. -/
def PassesAlone (c : Cluster) : Action → Prop
  | .callStep r j _ => ∀ call ∈ (c.node r).calls[j]?, (c.node r).Passes call →
      (c.node r).changesUnderway = 0
  | _ => True

instance (c : Cluster) (a : Action) : Decidable (c.PassesAlone a) :=
  match a with
  | .callStep _ _ _ => inferInstanceAs (Decidable (∀ _, _ → _))
  | .electionTick _ _ _ | .voteSend _ _ | .voteDeliver _ _ _ | .voteReturn _ _ _ _
  | .voteFail _ _ | .raftImpl _ | .appendSend _ _ _ | .appendDeliver _ _ _ | .appendResume _ _
  | .appendReturn _ _ _ _ | .appendFail _ _ | .executer _ _ | .clientGet _ _
  | .clientPut _ _ _ | .addServer _ _ | .removeServer _ _ => inferInstanceAs (Decidable True)

theorem PassesAlone.abides {a : Action} (ok : c.PassesAlone a) : c.Abides .alone a := by
  cases a with
  | callStep r j now =>
      exact fun call hc => ⟨ok call hc, fun _ => True.intro, fun _ => True.intro⟩
  | _ => simp [Abides, Replica.Rules.alone]

/-- A step of the leader `q` other than its own appending. -/
theorem PassesAlone.abides_leading {a : Action} {q : Int} (ok : c.PassesAlone a)
    (lead : (c.node q).state.role = .leader) (id : ∀ p, (c.node p).id = p) :
    c.Abides (.leading q) a := by
  cases a with
  | callStep r j now =>
      exact fun call hc => ⟨ok call hc, fun _ => True.intro, fun _ => True.intro⟩
  | voteReturn r k reply now =>
      refine ⟨True.intro, fun candidate same => ?_⟩
      rw [id] at same
      rw [same, lead] at candidate
      cases candidate
  | appendDeliver r k now =>
      refine ⟨True.intro, fun t _ args _ n hn => ⟨?_, fun _ _ => True.intro⟩⟩
      obtain ⟨reached, _⟩ := Option.ite_none_right_eq_some.mp hn
      simp only [Replica.Rules.leading, Replica.observeLeader_role reached.2.1]
      decide
  | _ => simp [Abides, Replica.Rules.leading]

theorem oneAtATime {servers : List Int} {config : Int → IntMap ServerInfo}
    {h : List (Cluster × Action)} (run : Run step (launch servers config) h c)
    (ok : Meets PassesAlone h) (q : Int) : (c.node q).OneAtATime (ownAppends q h c) := by
  refine (run.invariant (I := fun h c => ∀ q, (c.node q).Bare ∧ (c.node q).id = q ∧
    (c.node q).ClientCalls ∧ (c.node q).OneAtATime (ownAppends q h c)) ok (fun q => ?_)
    (fun h c a c' hi ok hs q => ?_) q).2.2.2
  · have fresh := Replica.initialise_fresh q (config q)
    refine ⟨initialise_bare q (config q), fresh.id, .initialise q (config q), ?_⟩
    change (Replica.initialise q (config q)).OneAtATime []
    constructor <;> simp [fresh.logs, fresh.calls, Replica.changesUnderway, Replica.queued,
      Replica.unpushed, RaftThread.unpushed, fresh.dispatchOut, fresh.raftIn, fresh.raftThread]
  · have tr := (Transition.of_step hs).2
    have bare (p : Int) := (hi p).1
    obtain ⟨_, id, clients, inv⟩ := hi q
    have moved := tr.changes bare ok.abides q
    refine ⟨(bare q).changes moved, ?_, clients.changes moved, ?_⟩
    · exact Replica.Changes.preserves (I := fun r => r.id = q) moved
        (fun _ _ same last => last.id.trans same) id
    simp only [ownAppends]
    split
    · next leads =>
      by_cases raft : ∃ r, a = .raftImpl r
      · obtain ⟨r, rfl⟩ := raft
        obtain ⟨k, length, inv'⟩ := inv.pushes clients (tr.changes (R := .appending) bare
          (by simp [Abides, Replica.Rules.appending]) q)
        have k_eq : k = (c'.node q).state.logs.items.length -
          (c.node q).state.logs.items.length := by omega
        rw [k_eq] at inv'
        exact inv'
      · have none : appends q c c' a = [] := by
          cases a with
          | raftImpl r => exact absurd ⟨r, rfl⟩ raft
          | _ => rfl
        rw [none, List.append_nil]
        exact inv.leads id clients (tr.changes bare
          (ok.abides_leading leads.1 fun p => (hi p).2.1) q) leads.2
    · exact (Replica.Changes.preserves (I := fun r => r.ClientCalls ∧ r.OneAtATime []) moved
        (fun _ _ h ch => ⟨h.1.change ch, h.2.change h.1 ch (fun _ ok => ok) fun _ _ => rfl⟩)
        ⟨clients, inv.none⟩).2

theorem oneChange {servers : List Int} {config : Int → IntMap ServerInfo}
    {h : List (Cluster × Action)} (run : Run step (launch servers config) h c)
    (ok : Meets PassesAlone h) : OneChange h c :=
  fun r => Nat.le_trans (Nat.le_add_left _ _) (oneAtATime run ok r).single

theorem oneChange_addFourth :
    (ownAppends 1 (outcome step (fixed threeServers) (plainElection ++ addFourth 1)).1
      (outcome step (fixed threeServers) (plainElection ++ addFourth 1)).2).countP
        ((outcome step (fixed threeServers)
          (plainElection ++ addFourth 1)).2.node 1).openChange = 1 ∧
    OneChange (outcome step (fixed threeServers) (plainElection ++ addFourth 1)).1
      (outcome step (fixed threeServers) (plainElection ++ addFourth 1)).2 :=
  ⟨by decide +kernel, oneChange (outcome_run _ _ _) (by decide +kernel)⟩

/-- Two calls pass the wait before either of them has submitted its change. -/
def addTwo : List Action :=
  plainElection ++ [.addServer 1 ⟨4, "", 0, 0, ""⟩, .addServer 1 ⟨5, "", 0, 0, ""⟩,
    .callStep 1 0 0, .callStep 1 1 0, .callStep 1 0 0, .callStep 1 1 0] ++
    List.replicate 5 (.raftImpl 1)

theorem not_oneChange : ¬ ∀ (servers : List Int) (config : Int → IntMap ServerInfo)
    (h : List (Cluster × Action)) (c : Cluster),
    Run step (launch servers config) h c → OneChange h c := by
  intro always
  have two : (ownAppends 1 (outcome step (fixed threeServers) addTwo).1
      (outcome step (fixed threeServers) addTwo).2).countP
        ((outcome step (fixed threeServers) addTwo).2.node 1).openChange = 2 := by
    decide +kernel
  have one := always _ _ _ _ (outcome_run step (fixed threeServers) addTwo) 1
  rw [two] at one
  exact absurd one (by decide)

end Cluster
end OhMyDb
