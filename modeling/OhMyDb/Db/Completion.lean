import OhMyDb.Db.Writes
import OhMyDb.Raft.History

/-!
How often a promise is taken from the store. An operation is copied from queue to queue
with its handle, and the copy that stays in the log keeps it when another one is handed to
the executer; so each handle is followed through the copies that can still use it.
-/

namespace OhMyDb
open Execution

/-- The promise a call has not passed on yet. -/
def Call.held : Call → Option Handle
  | .submitting _ it | .queueing _ it | .refused _ it => some it
  | _ => none

theorem Call.held_of_silent {call : Call} (h : call.submission = none) : call.held = none := by
  cases call with
  | submitting | queueing | refused => cases h
  | _ => rfl

theorem Call.Moves.held {s : RaftState} {ps : PromiseStore} {call call' : Call}
    (h : call.Moves s ps call') : call'.held = call.held := by
  cases h with
  | wait m stage stage' =>
      rw [held_of_silent (submission_of_membership stage),
        held_of_silent (submission_of_membership stage')]
  | pass command stage _ stage' =>
      rw [held_of_silent (submission_of_membership stage),
        held_of_silent (submission_of_membership stage')]
  | finish m stage _ none =>
      rw [held_of_silent (submission_of_membership stage), held_of_silent none]
  | _ => rfl

/-- The promises a list of operations carries. -/
def handles (ops : List RaftOp) : List Handle := ops.filterMap RaftOp.promiseHandle

theorem handles_append (ops ops' : List RaftOp) :
    handles (ops ++ ops') = handles ops ++ handles ops' :=
  List.filterMap_append

@[simp] theorem handles_nil : handles [] = [] := rfl

theorem handles_cons (op : RaftOp) (ops : List RaftOp) :
    handles (op :: ops) = op.promiseHandle.toList ++ handles ops := by
  unfold handles
  cases h : op.promiseHandle <;> simp [h]

theorem handles_eq_nil {ops : List RaftOp} (h : ∀ op ∈ ops, op.promiseHandle = none) :
    handles ops = [] :=
  List.filterMap_eq_nil_iff.mpr h

def Event.taken : Event → Option Handle
  | .tookPromise it => some it
  | _ => none

namespace Replica
variable {R : Rules} {r r' : Replica}

/-- The calls of `getAndRemove`. -/
def taken (r : Replica) : List Handle := r.hist.filterMap Event.taken

/-- The entries that have not been handed to the executer. -/
def unapplied (r : Replica) : List RaftOp :=
  (r.state.logs.items.drop (r.state.lastApplied + 1).toNat).map (·.op)

/-- The calls of `getAndRemove` with a handle, and the copies of the handle that lead to
one when everything goes as it should. -/
def uses (r : Replica) (it : Handle) : ℕ :=
  r.taken.count it + (r.calls.filterMap Call.held).count it +
    (handles r.dispatchOut).count it + (handles r.unpushed).count it +
    (handles r.unapplied).count it + (handles r.raftOut).count it + (handles r.execIn).count it

/-- No promise is attached to an entry that has been applied and is cut off. -/
def Rules.spared : Rules where
  cut r n := ∀ e ∈ (r.state.logs.items.take (r.state.lastApplied + 1).toNat).drop n,
    e.op.promiseHandle = none

structure UsedOnce (r : Replica) : Prop where
  floor : -1 ≤ r.state.lastApplied
  same : r.state.commitIndex = r.state.lastApplied
  own : ∀ call ∈ r.calls, ∀ op it, call.submission = some (op, it) → op.promiseHandle = some it
  once : ∀ it, r.uses it ≤ 1
  issued : ∀ it, r.promises.nextHandle ≤ it → r.uses it = 0

theorem UsedOnce.keep (h : r.UsedOnce) (lastApplied : r'.state.lastApplied = r.state.lastApplied)
    (commitIndex : r'.state.commitIndex = r.state.commitIndex) (calls : r'.calls = r.calls)
    (next : r'.promises.nextHandle = r.promises.nextHandle)
    (uses : ∀ it, r'.uses it ≤ r.uses it) : r'.UsedOnce where
  floor := lastApplied ▸ h.floor
  same := by rw [lastApplied, commitIndex, h.same]
  own := calls ▸ h.own
  once it := (uses it).trans (h.once it)
  issued it fresh := Nat.le_zero.mp ((uses it).trans (h.issued it (next ▸ fresh)).le)

theorem truncate_taken (r : Replica) (n : ℕ) :
    (r.truncate n).taken =
      (handles ((r.state.logs.items.drop n).map (·.op))).reverse ++ r.taken := by
  have aborted : ((r.state.logs.items.drop n).filterMap fun e =>
      (e.op.promiseHandle.map Event.tookPromise).bind Event.taken) =
        handles ((r.state.logs.items.drop n).map (·.op)) := by
    rw [handles, List.filterMap_map]
    refine List.filterMap_congr fun e _ => ?_
    change _ = e.op.promiseHandle
    cases e.op.promiseHandle <;> rfl
  rw [taken, truncate, List.filterMap_append, List.filterMap_reverse, List.filterMap_filterMap,
    aborted]
  rfl

/-- What is cut off beyond the applied entries is aborted, and all that is left of them. -/
theorem cut_handles {items : List LogEntry} {n a : ℕ} (it : Handle)
    (spared : ∀ e ∈ (items.take a).drop n, e.op.promiseHandle = none) :
    (handles ((items.drop n).map (·.op))).count it +
      (handles (((items.take n).drop a).map (·.op))).count it =
        (handles ((items.drop a).map (·.op))).count it := by
  rcases Nat.le_total a n with le | le
  · have split := congrArg (fun l => (handles (l.map (·.op))).count it)
      (List.take_append_drop (n - a) (items.drop a))
    simp only [List.map_append, handles_append, List.count_append, List.drop_drop,
      Nat.add_sub_cancel' le] at split
    rw [List.drop_take]
    omega
  · have none : (items.take n).drop a = [] :=
      List.drop_eq_nil_of_le ((List.length_take_le _ _).trans le)
    have split := congrArg (fun l => (handles (l.map (·.op))).count it)
      (List.take_append_drop (a - n) (items.drop n))
    rw [List.drop_take] at spared
    have without : handles (((items.drop n).take (a - n)).map (·.op)) = [] :=
      handles_eq_nil fun op hop => by
        obtain ⟨e, he, rfl⟩ := List.mem_map.mp hop
        exact spared e he
    simp only [List.map_append, handles_append, List.count_append, List.drop_drop,
      Nat.add_sub_cancel' le, without, List.count_nil] at split
    rw [none, List.map_nil, handles_nil, List.count_nil]
    omega

/-- One of the calls goes on. -/
theorem UsedOnce.goOn (h : r.UsedOnce) {j : ℕ} {call call' : Call} (hc : r.calls[j]? = some call)
    (same : call'.submission = call.submission) (state : r'.state = r.state)
    (calls : r'.calls = r.calls.set j call')
    (next : r'.promises.nextHandle = r.promises.nextHandle)
    (uses : ∀ it, r'.uses it ≤ r.uses it) : r'.UsedOnce where
  floor := state ▸ h.floor
  same := by rw [state, h.same]
  own x hx op it sub := by
    rw [calls] at hx
    rcases List.mem_or_eq_of_mem_set hx with hx | rfl
    · exact h.own x hx op it sub
    · exact h.own call (List.mem_of_getElem? hc) op it (same ▸ sub)
  once it := (uses it).trans (h.once it)
  issued it fresh := Nat.le_zero.mp ((uses it).trans (h.issued it (next ▸ fresh)).le)

theorem UsedOnce.commit (h : r.UsedOnce) {i : Int}
    (range : r.state.commitIndex < i ∨ i = r.state.logs.size - 1) :
    { r with state := { r.state with commitIndex := i } }.queueCommitted.UsedOnce := by
  have floor := h.floor
  have same := h.same
  have uses (it : Handle) :
      { r with state := { r.state with commitIndex := i } }.queueCommitted.uses it ≤ r.uses it := by
    have untold (ps : List (Int × RaftOp)) :
        (ps.map fun p => Event.pushedOut p.1 p.2).reverse.filterMap Event.taken = [] := by
      refine List.filterMap_eq_nil_iff.mpr fun e he => ?_
      obtain ⟨p, _, rfl⟩ := List.mem_map.mp (List.mem_reverse.mp he)
      rfl
    have ops := @newlyCommitted_ops { r.state with commitIndex := i } floor
    -- the entries from LastApplied on are split at the new CommitIndex
    have split := congrArg (fun l => (handles (l.map (·.op))).count it) (List.take_append_drop
      (i - r.state.lastApplied).toNat (r.state.logs.items.drop (r.state.lastApplied + 1).toNat))
    have rest : (handles ((r.state.logs.items.drop (i + 1).toNat).map (·.op))).count it ≤
        (handles (((r.state.logs.items.drop (r.state.lastApplied + 1).toNat).drop
          (i - r.state.lastApplied).toNat).map (·.op))).count it := by
      rcases Int.lt_or_le i r.state.lastApplied with back | forth
      · have last : i = r.state.logs.size - 1 := by omega
        have none : r.state.logs.items.drop (i + 1).toNat = [] := by
          refine List.drop_eq_nil_of_le ?_
          unfold LogVector.size at last
          omega
        simp [none]
      · rw [List.drop_drop]
        refine le_of_eq ?_
        congr 4
        omega
    simp only [List.map_append, handles_append, List.count_append] at split
    simp only [uses, taken, unapplied, Replica.unpushed, queueCommitted, List.filterMap_append,
      untold, List.nil_append, ops, handles_append, List.count_append]
    omega
  refine ⟨?_, rfl, h.own, fun it => (uses it).trans (h.once it), fun it fresh =>
    Nat.le_zero.mp ((uses it).trans (h.issued it fresh).le)⟩
  change -1 ≤ i
  unfold LogVector.size at range
  omega

theorem UsedOnce.client (h : r.UsedOnce) (command : Command) :
    (r.clientCall command).UsedOnce := by
  have uses (it : Handle) : (r.clientCall command).uses it =
      r.uses it + if r.promises.nextHandle = it then 1 else 0 := by
    have held : Call.held (.submitting ⟨command, some r.promises.nextHandle⟩
        r.promises.nextHandle) = some r.promises.nextHandle := rfl
    simp only [Replica.uses, taken, unapplied, Replica.unpushed, clientCall, PromiseStore.insert,
      startCall, List.filterMap_append, List.filterMap_cons, held, List.filterMap_nil,
      List.count_append, List.count_cons, List.count_nil, beq_iff_eq]
    omega
  refine ⟨h.floor, h.same, fun x hx op it sub => ?_, fun it => ?_, fun it fresh => ?_⟩
  · rcases List.mem_append.mp hx with hx | hx
    · exact h.own x hx op it sub
    · obtain rfl := List.mem_singleton.mp hx
      cases sub
      rfl
  · rw [uses]
    split
    · next new => rw [h.issued it new.le]
    · exact h.once it
  · have past : r.promises.nextHandle < it := fresh
    rw [uses, if_neg (Nat.ne_of_lt past), h.issued it past.le]

theorem UsedOnce.change (h : r.UsedOnce) (ch : Change .spared r r') : r'.UsedOnce := by
  have append (e : LogEntry) (it : Handle) :
      (handles (((r.state.logs.items ++ [e]).drop (r.state.lastApplied + 1).toNat).map
        (·.op))).count it ≤
          (handles r.unapplied).count it + e.op.promiseHandle.toList.count it := by
    rw [List.drop_append, List.map_append, handles_append, List.count_append]
    refine Nat.add_le_add_left ?_ _
    cases (r.state.lastApplied + 1).toNat - r.state.logs.items.length with
    | zero => simp [handles_cons]
    | succ k => simp
  cases ch with
  | swap thread =>
      refine h.keep rfl rfl rfl rfl fun it => ?_
      simp only [uses, taken, unapplied, Replica.unpushed, RaftThread.unpushed, thread]
      omega
  | check thread ok =>
      refine h.keep rfl rfl rfl rfl fun it => ?_
      by_cases lead : r.state.role = .leader
      · simp only [uses, taken, unapplied, Replica.unpushed, RaftThread.unpushed, thread,
          if_pos lead, le_refl]
      · simp only [uses, taken, unapplied, Replica.unpushed, RaftThread.unpushed, thread,
          if_neg lead, handles_nil, List.count_nil]
        omega
  | begin thread | spawn _ thread | clear thread =>
      refine h.keep rfl rfl rfl rfl fun it => ?_
      simp only [uses, taken, unapplied, Replica.unpushed, RaftThread.unpushed, thread, le_refl]
  | push saved op rest thread _ =>
      refine h.keep rfl rfl rfl rfl fun it => ?_
      have grown := append ⟨r.state.currentTerm, op⟩ it
      simp only [uses, taken, unapplied, Replica.unpushed, RaftThread.afterPush_unpushed,
        Replica.append, LogVector.pushBack_items] at grown ⊢
      simp only [RaftThread.unpushed, thread, handles_cons, List.count_append]
      omega
  | update saved u rest thread _ =>
      cases u <;>
      · refine h.keep rfl rfl rfl rfl fun it => ?_
        simp only [uses, taken, unapplied, Replica.unpushed, RaftThread.unpushed, thread]
        exact le_rfl
  | finish saved thread =>
      refine h.keep rfl rfl rfl rfl fun it => ?_
      simp only [uses, taken, unapplied, Replica.unpushed, RaftThread.unpushed, thread, persistLogs,
        LogVector.persist_items, le_refl]
  | cut n spared =>
      refine h.keep rfl rfl rfl (RaftOp.aborts _ _).nextHandle fun it => ?_
      have moved := cut_handles it spared
      have items : (r.truncate n).state.logs.items = r.state.logs.items.take n :=
        LogVector.resize_items _ _
      have applied : (r.truncate n).state.lastApplied = r.state.lastApplied := rfl
      rw [uses, truncate_taken, unapplied, items, applied, List.count_append, List.count_reverse]
      simp only [uses, unapplied]
      change _ + (r.calls.filterMap Call.held).count it + (handles r.dispatchOut).count it +
        (handles r.unpushed).count it + _ + (handles r.raftOut).count it +
        (handles r.execIn).count it ≤ _
      omega
  | follow hs x e rest _ _ _ bare _ =>
      refine h.keep rfl rfl rfl rfl fun it => ?_
      have grown := append ⟨e.term, e.op⟩ it
      simp only [bare, Option.toList_none, List.count_nil] at grown
      simp only [uses, taken, unapplied, Replica.unpushed, Replica.append,
        LogVector.pushBack_items] at grown ⊢
      omega
  | updateHandler j x u _ _ _ => cases u <;> exact h.keep rfl rfl rfl rfl fun it => le_rfl
  | leave hs x _ _ _ =>
      refine h.keep rfl rfl rfl rfl fun it => ?_
      simp only [uses, taken, unapplied, Replica.unpushed, persistLogs, LogVector.persist_items,
        le_refl]
  | commit i range inside => exact h.commit range
  | fetch empty =>
      refine h.keep rfl rfl rfl rfl fun it => ?_
      simp only [uses, taken, unapplied, Replica.unpushed, empty, handles_nil, List.count_nil]
      omega
  | execute op rest ok queue _ =>
      refine h.keep rfl rfl rfl (RaftOp.resolve_nextHandle _ _ _) fun it => ?_
      have used : (op.promiseHandle.toList.map Event.tookPromise).filterMap Event.taken =
          op.promiseHandle.toList := by
        cases op.promiseHandle <;> rfl
      have executed : Event.taken (.executed op (op.run r.db ok).2) = none := rfl
      simp only [uses, taken, unapplied, Replica.unpushed, queue, handles_cons, List.count_append,
        List.filterMap_append, List.filterMap_cons, used, executed]
      omega
  | client command _ => exact h.client command
  | start call silent _ =>
      have none := Call.held_of_silent silent
      have uses (it : Handle) : (r.startCall call).uses it = r.uses it := by
        simp only [Replica.uses, taken, unapplied, Replica.unpushed, startCall,
          List.filterMap_append, List.filterMap_cons, none, List.filterMap_nil, List.append_nil]
      refine ⟨h.floor, h.same, fun x hx op it sub => ?_, fun it => (uses it).le.trans (h.once it),
        fun it fresh => (uses it).trans (h.issued it fresh)⟩
      rcases List.mem_append.mp hx with hx | hx
      · exact h.own x hx op it sub
      · obtain rfl := List.mem_singleton.mp hx
        cases silent.symm.trans sub
  | call j call call' hc _ moves =>
      refine h.goOn hc moves.submission rfl rfl rfl fun it => ?_
      have held := List.filterMap_set_of_eq hc moves.held
      simp only [uses, taken, unapplied, Replica.unpushed, held, le_refl]
  | queue j op it hc _ =>
      have same : Call.submission (.waiting op it) = Call.submission (.queueing op it) := rfl
      refine h.goOn hc same rfl rfl rfl fun it' => ?_
      have handle := h.own _ (List.mem_of_getElem? hc) op it rfl
      have before : Call.held (.queueing op it) = some it := rfl
      have after : Call.held (.waiting op it) = none := rfl
      have moved := (List.filterMap_set_perm hc before after).count_eq it'
      simp only [uses, taken, unapplied, Replica.unpushed, pushDispatch, handles_append,
        handles_cons, handle, Option.toList_some, handles_nil, List.count_append, moved,
        List.count_cons, List.count_nil]
      omega
  | discard j op it ret hc _ =>
      have same : Call.submission (.returned op it ret) = Call.submission (.refused op it) := rfl
      refine h.goOn hc same rfl rfl rfl fun it' => ?_
      have before : Call.held (.refused op it) = some it := rfl
      have after : Call.held (.returned op it ret) = none := rfl
      have moved := (List.filterMap_set_perm hc before after).count_eq it'
      have used : Event.taken (.tookPromise it) = some it := rfl
      simp only [uses, taken, unapplied, Replica.unpushed, List.filterMap_cons, used, moved,
        List.count_cons]
      omega
  | submit j call call' command prev hc _ stage stage' =>
      have silent := Call.submission_of_membership stage
      have silent' := Call.submission_of_membership stage'
      refine h.goOn hc (silent'.trans silent.symm) rfl rfl rfl fun it => ?_
      have held := List.filterMap_set_of_eq hc
        ((Call.held_of_silent silent').trans (Call.held_of_silent silent).symm)
      simp only [uses, taken, unapplied, Replica.unpushed, pushDispatch, handles_append,
        handles_cons, Option.toList_none, handles_nil, List.append_nil, held, le_refl]
  | record e remark =>
      refine h.keep rfl rfl rfl rfl fun it => ?_
      have none : e.taken = none := by
        cases e with
        | tookPromise => cases remark
        | _ => rfl
      simp only [uses, taken, unapplied, Replica.unpushed, List.filterMap_cons, none, le_refl]
  | _ => exact h.keep rfl rfl rfl rfl fun it => le_rfl

theorem UsedOnce.initialise (id : Int) (config : IntMap ServerInfo) :
    (initialise id config).UsedOnce := by
  have fresh := initialise_fresh id config
  have uses (it : Handle) : (Replica.initialise id config).uses it = 0 := by
    simp [Replica.uses, taken, unapplied, Replica.unpushed, RaftThread.unpushed, fresh.hist,
      fresh.calls, fresh.dispatchOut, fresh.raftThread, fresh.raftIn, fresh.logs, fresh.raftOut,
      fresh.execIn]
  refine ⟨?_, ?_, ?_, fun it => (uses it).le.trans (Nat.zero_le 1), fun it _ => uses it⟩
  · rw [fresh.lastApplied]
  · rw [fresh.lastApplied, fresh.commitIndex]
  · rw [fresh.calls]
    exact fun _ none => absurd none List.not_mem_nil

end Replica

namespace Cluster
variable {c : Cluster}

/-- No promise is taken from its store twice. -/
def CompletedOnce (c : Cluster) : Prop := ∀ r it, (c.node r).taken.count it ≤ 1

/-- No request removes an entry up to `LastApplied` that carries a promise. -/
def SparesApplied (c : Cluster) : Action → Prop
  | .appendDeliver r k now => ∀ t ∈ (c.node r).appendThreads[k]?, ∀ args ∈ t.args,
      ∀ n ∈ (c.node t.peer).cut args now, ∀ e ∈ ((c.node t.peer).state.logs.items.take
        ((c.node t.peer).state.lastApplied + 1).toNat).drop n, e.op.promiseHandle = none
  | _ => True

instance (c : Cluster) (a : Action) : Decidable (c.SparesApplied a) :=
  match a with
  | .appendDeliver _ _ _ => inferInstanceAs (Decidable (∀ _, _ → ∀ _, _ → ∀ _, _ → ∀ _, _ → _))
  | .electionTick _ _ _ | .voteSend _ _ | .voteDeliver _ _ _ | .voteReturn _ _ _ _
  | .voteFail _ _ | .raftImpl _ | .appendSend _ _ _ | .appendResume _ _ | .appendReturn _ _ _ _
  | .appendFail _ _ | .executer _ _ | .clientGet _ _ | .clientPut _ _ _ | .addServer _ _
  | .removeServer _ _ | .callStep _ _ _ => inferInstanceAs (Decidable True)

theorem SparesApplied.abides {a : Action} (spares : c.SparesApplied a) : c.Abides .spared a := by
  cases a with
  | appendDeliver r k now =>
      refine ⟨True.intro, fun t ht args ha n hn => ⟨?_, fun _ _ => True.intro⟩⟩
      simpa only [Replica.Rules.spared, Replica.observeLeader_logs,
        Replica.observeLeader_lastApplied] using spares t ht args ha n hn
  | _ => simp [Abides, Replica.Rules.spared]

theorem completedOnce {servers : List Int} {config : Int → IntMap ServerInfo}
    {h : List (Cluster × Action)} (run : Run step (launch servers config) h c)
    (ok : Meets SparesApplied h) : CompletedOnce c := by
  intro r it
  have used := replicas_invariant (I := fun _ x => x.UsedOnce) run
    (fun p hp => (ok p hp).abides) (fun q => .initialise q (config q))
    (fun _ _ _ => Replica.UsedOnce.change) r
  have once := used.once it
  unfold Replica.uses at once
  omega

theorem completedOnce_answeredPut :
    ((outcome step (fixed threeServers) answeredPut).2.node 1).taken = [0] ∧
    CompletedOnce (outcome step (fixed threeServers) answeredPut).2 :=
  ⟨by decide +kernel, @completedOnce _ threeServers.keys _ _ (outcome_run _ _ _)
    (by decide +kernel)⟩

/-- The PUT server 1 has committed is cut off its log, and executed afterwards. -/
theorem not_completedOnce : ¬ ∀ (servers : List Int) (config : Int → IntMap ServerInfo)
    (h : List (Cluster × Action)) (c : Cluster),
    Run step (launch servers config) h c → CompletedOnce c := by
  intro always
  have taken : ((outcome step (fixed threeServers)
      (lateVote ++ [.executer 1 true, .executer 1 true])).2.node 1).taken = [0, 0] := by
    decide +kernel
  have once := always _ _ _ _ (outcome_run step (fixed threeServers)
    (lateVote ++ [.executer 1 true, .executer 1 true])) 1 0
  rw [taken] at once
  exact absurd once (by decide)

end Cluster
end OhMyDb
