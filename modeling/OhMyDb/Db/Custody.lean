import OhMyDb.Db.Promises
import OhMyDb.Db.Writes
import OhMyDb.Raft.Stepwise

/-!
Where the operation of an accepted call is while its promise is open: in one of the
two input queues, in the log or in one of the two output queues. What `raftImpl`
finds in its queue is cleared whether it has been pushed or not, and the role is
checked only once in between.
-/

namespace OhMyDb
open Execution

/-- A GET or PUT that `submit` has accepted. -/
def Call.accepted : Call → Option (RaftOp × Handle)
  | .waiting op it => some (op, it)
  | .returned op it ret => if ret.errorCode = .notLeader then none else some (op, it)
  | _ => none

/-- The promise has received its value. -/
def PromiseStore.Completed (ps : PromiseStore) (it : Handle) : Prop :=
  ∃ res, (it, res) ∈ ps.results

namespace Replica
variable {R : Rules} {r r' : Replica}

/-- The operations in `dispatchOut_`, `raftIn_`, `Logs`, `raftOut_` and `execIn_`. -/
def carried (r : Replica) : List RaftOp :=
  r.dispatchOut ++ r.raftIn ++ r.state.logs.items.map (·.op) ++ r.raftOut ++ r.execIn

/-- Those of them that still have a step to make. -/
def live (r : Replica) : List RaftOp :=
  r.dispatchOut ++ r.unpushed ++ r.state.logs.items.map (·.op) ++ r.raftOut ++ r.execIn

/-- What a call may rely on at each of its stages. -/
def Backed (r : Replica) : Call → Prop
  | .submitting _ it | .queueing _ it => it ∈ r.promises.store ∨ r.promises.Completed it
  | .waiting op it => (it ∈ r.promises.store ∧ op ∈ r.live) ∨ r.promises.Completed it
  | .returned _ it ret => ret.errorCode = .notLeader ∨ r.promises.Completed it
  | _ => True

structure InCustody (r : Replica) : Prop where
  handle : ∀ op it, some (op, it) ∈ r.calls.map Call.submission →
    op.promiseHandle = some it ∧ it < r.promises.nextHandle
  distinct : ∀ (j k : ℕ) (op op' : RaftOp) (it : Handle),
    (r.calls.map Call.submission)[j]? = some (some (op, it)) →
    (r.calls.map Call.submission)[k]? = some (some (op', it)) → j = k
  backed : ∀ call ∈ r.calls, r.Backed call
  unpushed : r.unpushed ⊆ r.raftIn

theorem backed_of_silent {call : Call} (h : call.submission = none) : r.Backed call := by
  cases call with
  | submitting | queueing | waiting | returned => cases h
  | _ => exact True.intro

theorem Backed.mono {call : Call} (h : r.Backed call)
    (results : r.promises.results ⊆ r'.promises.results)
    (passes : ∀ op it, call.submission = some (op, it) → it ∈ r.promises.store →
      (it ∈ r'.promises.store ∧ (op ∈ r.live → op ∈ r'.live)) ∨ r'.promises.Completed it) :
    r'.Backed call := by
  have settled {it : Handle} : r.promises.Completed it → r'.promises.Completed it :=
    fun ⟨res, mem⟩ => ⟨res, results mem⟩
  have pending {op : RaftOp} {it : Handle} (own : call.submission = some (op, it))
      (h : it ∈ r.promises.store ∨ r.promises.Completed it) :
      it ∈ r'.promises.store ∨ r'.promises.Completed it :=
    h.elim (fun stored => (passes op it own stored).imp_left And.left) fun done =>
      Or.inr (settled done)
  cases call with
  | submitting op it => exact pending rfl h
  | queueing op it => exact pending rfl h
  | waiting op it =>
      rcases h with ⟨stored, at_⟩ | done
      · exact (passes op it rfl stored).imp_left fun h => ⟨h.1, h.2 at_⟩
      · exact Or.inr (settled done)
  | returned op it ret => exact h.imp_right settled
  | _ => exact True.intro

/-- The calls stay where they are while promises are completed and operations move on. -/
theorem InCustody.keep (h : r.InCustody) (calls : r'.calls = r.calls)
    (next : r'.promises.nextHandle = r.promises.nextHandle)
    (unpushed : r'.unpushed ⊆ r'.raftIn)
    (results : r.promises.results ⊆ r'.promises.results)
    (passes : ∀ op it, op.promiseHandle = some it → it ∈ r.promises.store →
      (it ∈ r'.promises.store ∧ (op ∈ r.live → op ∈ r'.live)) ∨ r'.promises.Completed it) :
    r'.InCustody where
  handle := by rw [calls, next]; exact h.handle
  distinct := by rw [calls]; exact h.distinct
  backed call mem := by
    rw [calls] at mem
    exact (h.backed call mem).mono results fun op it sub =>
      passes op it (h.handle op it (List.mem_map.mpr ⟨call, mem, sub⟩)).1
  unpushed := unpushed

theorem InCustody.move (h : r.InCustody) (calls : r'.calls = r.calls)
    (promises : r'.promises = r.promises) (unpushed : r'.unpushed ⊆ r'.raftIn)
    (live : r.live ⊆ r'.live) : r'.InCustody :=
  h.keep calls (by rw [promises]) unpushed (by rw [promises]; exact List.Subset.refl _)
    fun _ _ _ stored => Or.inl ⟨promises ▸ stored, fun at_ => live at_⟩

/-- One of the calls goes on, with the same operation and promise. -/
theorem InCustody.goOn (h : r.InCustody) {j : ℕ} {call : Call}
    (hc : r.calls[j]? = some call) (call' : Call) (same : call'.submission = call.submission)
    (calls : r'.calls = r.calls.set j call')
    (next : r'.promises.nextHandle = r.promises.nextHandle)
    (unpushed : r'.unpushed ⊆ r'.raftIn) (backed : r'.Backed call')
    (others : ∀ x ∈ r.calls, r'.Backed x) : r'.InCustody := by
  have submissions : r'.calls.map Call.submission = r.calls.map Call.submission := by
    rw [calls]
    exact List.map_set_of_eq hc same
  refine ⟨?_, ?_, fun x hx => ?_, unpushed⟩
  · rw [submissions, next]
    exact h.handle
  · rw [submissions]
    exact h.distinct
  · rw [calls] at hx
    rcases List.mem_or_eq_of_mem_set hx with hx | rfl
    · exact others x hx
    · exact backed

/-- What `raftImpl` has taken from the queue is pushed, unless nobody waits for it. -/
def Rules.taken : Rules where
  check r := r.state.role = .leader ∨ ∀ op ∈ r.raftIn, ¬ r.ledger.Awaits op

theorem mem_live {op : RaftOp} : op ∈ r.live ↔ op ∈ r.dispatchOut ∨ op ∈ r.unpushed ∨
    op ∈ r.state.logs.items.map (·.op) ∨ op ∈ r.raftOut ∨ op ∈ r.execIn := by
  simp only [live, List.mem_append, or_assoc]

theorem InCustody.client (h : r.InCustody) (command : Command) :
    (r.clientCall command).InCustody := by
  have submissions : (r.clientCall command).calls.map Call.submission =
      r.calls.map Call.submission ++ [some (⟨command, some r.promises.nextHandle⟩,
        r.promises.nextHandle)] := List.map_append
  have live : (r.clientCall command).live = r.live := rfl
  refine ⟨fun op it mem => ?_, fun j k op op' it hj hk => ?_, fun call mem => ?_, h.unpushed⟩
  · rw [submissions] at mem
    rcases List.mem_append.mp mem with mem | mem
    · exact ⟨(h.handle op it mem).1, Nat.lt_succ_of_lt (h.handle op it mem).2⟩
    · cases List.mem_singleton.mp mem
      exact ⟨rfl, Nat.lt_succ_self _⟩
  · -- an old promise is not the new one
    have old {i : ℕ} {op : RaftOp} {it : Handle}
        (hi : (r.calls.map Call.submission ++ [some (⟨command, some r.promises.nextHandle⟩,
          r.promises.nextHandle)])[i]? = some (some (op, it))) :
        ((r.calls.map Call.submission)[i]? = some (some (op, it)) ∧ it < r.promises.nextHandle) ∨
          (i = (r.calls.map Call.submission).length ∧ it = r.promises.nextHandle) := by
      rcases List.getElem?_concat_cases hi with hi | ⟨last, same⟩
      · exact Or.inl ⟨hi, (h.handle op it (List.mem_of_getElem? hi)).2⟩
      · cases same
        exact Or.inr ⟨last, rfl⟩
    rw [submissions] at hj hk
    rcases old hj with ⟨hj, lt⟩ | ⟨rfl, rfl⟩
    · rcases old hk with ⟨hk, _⟩ | ⟨_, rfl⟩
      · exact h.distinct j k op op' it hj hk
      · exact absurd lt (Nat.lt_irrefl _)
    · rcases old hk with ⟨_, lt⟩ | ⟨rfl, _⟩
      · exact absurd lt (Nat.lt_irrefl _)
      · rfl
  · rcases List.mem_append.mp mem with mem | mem
    · exact (h.backed call mem).mono (List.Subset.refl _) fun op it _ stored =>
        Or.inl ⟨List.mem_cons_of_mem _ stored, fun at_ => live ▸ at_⟩
    · obtain rfl := List.mem_singleton.mp mem
      exact Or.inl List.mem_cons_self

theorem InCustody.change (h : r.InCustody) (ch : Change .taken r r') : r'.InCustody := by
  cases ch with
  | swap thread =>
      refine h.move rfl rfl (List.Subset.refl _) fun op at_ => ?_
      rw [mem_live] at at_ ⊢
      simp only [Replica.unpushed, RaftThread.unpushed, thread] at at_ ⊢
      tauto
  | check thread ok =>
      refine h.keep rfl rfl ?_ (List.Subset.refl _)
        fun op it handle stored => Or.inl ⟨stored, fun at_ => ?_⟩
      · unfold Replica.unpushed
        split
        · exact List.Subset.refl _
        · exact List.nil_subset _
      rw [mem_live] at at_ ⊢
      by_cases lead : r.state.role = .leader
      · simp only [Replica.unpushed, RaftThread.unpushed, thread, if_pos lead] at at_ ⊢
        exact at_
      · simp only [Replica.unpushed, RaftThread.unpushed, thread, if_neg lead] at at_ ⊢
        -- what is passed over here is not waited for
        have passed : op ∉ r.raftIn := fun mem =>
          (ok.resolve_left lead) op mem ⟨it, handle, stored⟩
        tauto
  | begin thread =>
      refine h.move rfl rfl (List.Subset.refl _) fun op at_ => ?_
      rw [mem_live] at at_ ⊢
      simp only [Replica.unpushed, RaftThread.unpushed, thread] at at_ ⊢
      exact at_
  | push saved op rest thread _ =>
      have sub : op :: rest ⊆ r.raftIn := by
        simpa only [Replica.unpushed, RaftThread.unpushed, thread] using h.unpushed
      refine h.move rfl rfl ?_ fun x at_ => ?_
      · rw [Replica.unpushed, RaftThread.afterPush_unpushed]
        exact fun x hx => sub (List.mem_cons_of_mem _ hx)
      · rw [mem_live] at at_ ⊢
        simp only [Replica.unpushed, RaftThread.afterPush_unpushed, append,
          LogVector.pushBack_items, List.map_append, List.mem_append, List.map_cons, List.map_nil,
          List.mem_singleton]
        simp only [Replica.unpushed, RaftThread.unpushed, thread, List.mem_cons] at at_
        tauto
  | update saved u rest thread _ =>
      have sub : rest ⊆ r.raftIn := by
        simpa only [Replica.unpushed, RaftThread.unpushed, thread] using h.unpushed
      cases u <;>
      · refine h.move rfl rfl sub fun op at_ => ?_
        rw [mem_live] at at_ ⊢
        simp only [Replica.unpushed, RaftThread.unpushed, thread] at at_ ⊢
        exact at_
  | finish saved thread =>
      refine h.move rfl rfl (List.nil_subset _) fun op at_ => ?_
      rw [mem_live] at at_ ⊢
      simp only [Replica.unpushed, RaftThread.unpushed, thread, persistLogs,
        LogVector.persist_items] at at_ ⊢
      exact at_
  | spawn saved thread =>
      refine h.move rfl rfl (List.nil_subset _) fun op at_ => ?_
      rw [mem_live] at at_ ⊢
      simp only [Replica.unpushed, RaftThread.unpushed, thread] at at_ ⊢
      exact at_
  | clear thread =>
      refine h.move rfl rfl (List.Subset.refl _) fun op at_ => ?_
      rw [mem_live] at at_ ⊢
      simp only [Replica.unpushed, RaftThread.unpushed, thread] at at_ ⊢
      exact at_
  | cut n _ =>
      have aborts := RaftOp.aborts (r.state.logs.items.drop n) r.promises
      refine h.keep rfl aborts.nextHandle h.unpushed aborts.results fun op it handle stored => ?_
      refine (RaftOp.aborts_pending stored).imp_left fun pending => ⟨pending.1, fun at_ => ?_⟩
      rw [mem_live] at at_ ⊢
      -- an operation whose promise is not completed here is not cut off
      have kept (mem : op ∈ r.state.logs.items.map (·.op)) :
          op ∈ (r.state.logs.items.take n).map (·.op) := by
        rw [← List.take_append_drop n r.state.logs.items, List.map_append,
          List.mem_append] at mem
        refine mem.resolve_right fun mem => ?_
        obtain ⟨e, he, rfl⟩ := List.mem_map.mp mem
        exact pending.2 e he handle
      have items : (r.truncate n).state.logs.items = r.state.logs.items.take n :=
        LogVector.resize_items _ _
      rw [items]
      exact at_.imp_right (Or.imp_right (Or.imp_left kept))
  | follow hs x e rest _ _ _ _ _ =>
      refine h.move rfl rfl h.unpushed fun op at_ => ?_
      rw [mem_live] at at_ ⊢
      simp only [append, LogVector.pushBack_items, List.map_append, List.mem_append]
      exact at_.imp_right (Or.imp_right (Or.imp_left Or.inl))
  | updateHandler j x u _ _ _ => cases u <;> exact h.move rfl rfl h.unpushed (List.Subset.refl _)
  | leave hs x _ _ _ =>
      refine h.move rfl rfl h.unpushed fun op at_ => ?_
      rw [mem_live] at at_ ⊢
      simp only [persistLogs, LogVector.persist_items]
      exact at_
  | commit i _ _ =>
      refine h.move rfl rfl h.unpushed fun op at_ => ?_
      rw [mem_live] at at_ ⊢
      exact at_.imp_right (Or.imp_right (Or.imp_right (Or.imp_left (List.mem_append_left _))))
  | fetch empty =>
      refine h.move rfl rfl h.unpushed fun op at_ => ?_
      rw [mem_live] at at_ ⊢
      simp only [empty, List.not_mem_nil, or_false] at at_
      exact at_.imp_right (Or.imp_right (Or.imp_right Or.inr))
  | execute op rest ok next_ _ =>
      refine h.keep rfl (RaftOp.resolve_nextHandle _ _ _) h.unpushed RaftOp.resolve_results
        fun x it handle stored => ?_
      rcases RaftOp.resolve_pending stored with ⟨left, other⟩ | ⟨_, done⟩
      · refine Or.inl ⟨left, fun at_ => ?_⟩
        have ne : x ≠ op := fun same => other (same ▸ handle)
        rw [mem_live] at at_ ⊢
        simp only [next_, List.mem_cons, ne, false_or] at at_
        exact at_
      · exact Or.inr ⟨_, done⟩
  | client command _ => exact h.client command
  | start call none _ =>
      have submissions : (r.startCall call).calls.map Call.submission =
          r.calls.map Call.submission ++ [Option.none] := by
        simp [startCall, none]
      have old {i : ℕ} {x : RaftOp × Handle}
          (hi : ((r.startCall call).calls.map Call.submission)[i]? = some (some x)) :
          (r.calls.map Call.submission)[i]? = some (some x) := by
        rw [submissions] at hi
        rcases List.getElem?_concat_cases hi with hi | ⟨_, new⟩
        · exact hi
        · cases new
      refine ⟨fun op it mem => ?_, fun j k op op' it hj hk =>
        h.distinct j k op op' it (old hj) (old hk), fun x hx => ?_, h.unpushed⟩
      · obtain ⟨i, hi⟩ := List.mem_iff_getElem?.mp mem
        exact h.handle op it (List.mem_of_getElem? (old hi))
      · rcases List.mem_append.mp hx with hx | hx
        · exact h.backed x hx
        · obtain rfl := List.mem_singleton.mp hx
          exact backed_of_silent none
  | call j call call' hc _ moves =>
      refine h.goOn hc call' moves.submission rfl rfl h.unpushed ?_ h.backed
      have here := h.backed call (List.mem_of_getElem? hc)
      cases moves with
      | accept op it => exact here
      | refuse op it => exact True.intro
      | answer op it res ret mem _ => exact Or.inr ⟨res, mem⟩
      | wait m _ stage' => exact backed_of_silent (Call.submission_of_membership stage')
      | pass command _ _ stage' => exact backed_of_silent (Call.submission_of_membership stage')
      | finish m _ _ none => exact backed_of_silent none
  | queue j op it hc _ =>
      refine h.goOn hc (.waiting op it) rfl rfl rfl h.unpushed ?_ fun x hx => ?_
      · have here : r.Backed (.queueing op it) := h.backed _ (List.mem_of_getElem? hc)
        refine here.imp_left fun stored => ⟨stored, ?_⟩
        simp [mem_live, pushDispatch]
      · refine (h.backed x hx).mono (List.Subset.refl _) fun op it _ stored =>
          Or.inl ⟨stored, fun at_ => ?_⟩
        rw [mem_live] at at_ ⊢
        exact at_.imp_left (List.mem_append_left _)
  | discard j op it ret hc refused =>
      refine h.goOn hc (.returned op it ret) rfl rfl rfl h.unpushed (Or.inl refused) fun x hx => ?_
      have at_ : (r.calls.map Call.submission)[j]? = some (some (op, it)) := by
        simp [hc, Call.submission]
      obtain ⟨k, hk⟩ := List.mem_iff_getElem?.mp hx
      by_cases same : k = j
      · subst same
        obtain rfl := Option.some.inj (hc.symm.trans hk)
        exact True.intro
      · refine (h.backed x hx).mono (List.Subset.refl _) fun op' it' sub stored => ?_
        have ne : it' ≠ it := by
          rintro rfl
          exact same (h.distinct k j op' op it' (by simp [hk, sub]) at_)
        exact Or.inl ⟨(List.mem_erase_of_ne ne).mpr stored, fun at_ => at_⟩
  | submit j call call' command prev hc _ stage stage' =>
      have silent := Call.submission_of_membership stage'
      refine h.goOn hc call' (silent.trans (Call.submission_of_membership stage).symm) rfl rfl
        h.unpushed (backed_of_silent silent) fun x hx => ?_
      refine (h.backed x hx).mono (List.Subset.refl _) fun op it _ stored =>
        Or.inl ⟨stored, fun at_ => ?_⟩
      rw [mem_live] at at_ ⊢
      exact at_.imp_left (List.mem_append_left _)
  | _ => exact h.move rfl rfl h.unpushed (List.Subset.refl _)

theorem InCustody.carried {op : RaftOp} (h : r.InCustody) (at_ : op ∈ r.live) :
    op ∈ r.carried := by
  simp only [Replica.carried, List.mem_append, or_assoc]
  rw [mem_live] at at_
  exact at_.imp_right (Or.imp_left fun mem => h.unpushed mem)

theorem InCustody.initialise (id : Int) (config : IntMap ServerInfo) :
    (initialise id config).InCustody := by
  have fresh := initialise_fresh id config
  constructor
  case handle => simp [fresh.calls]
  case distinct => simp [fresh.calls]
  case backed => simp [fresh.calls]
  case unpushed => simp [Replica.unpushed, RaftThread.unpushed, fresh.raftThread]

end Replica

namespace Cluster
variable {c : Cluster}

/-- The promise of an accepted call is completed, or the operation is in one of the
five containers. -/
def NoneOrphaned (c : Cluster) : Prop :=
  ∀ r, ∀ call ∈ (c.node r).calls, ∀ op it, call.accepted = some (op, it) →
    (c.node r).promises.Completed it ∨
      (op.promiseHandle = some it ∧ op ∈ (c.node r).carried)

/-- Where `raftImpl` reads the role, the replica is the leader, or no operation in
its queue is waited for. -/
def TakesQueue (c : Cluster) : Action → Prop
  | .raftImpl r => (c.node r).raftThread = .swapped → (c.node r).state.role = .leader ∨
      ∀ op ∈ (c.node r).raftIn, ¬ (c.node r).ledger.Awaits op
  | _ => True

instance (c : Cluster) (a : Action) : Decidable (c.TakesQueue a) :=
  match a with
  | .raftImpl _ => inferInstanceAs (Decidable (_ → _))
  | .electionTick _ _ _ | .voteSend _ _ | .voteDeliver _ _ _ | .voteReturn _ _ _ _
  | .voteFail _ _ | .appendSend _ _ _ | .appendDeliver _ _ _ | .appendResume _ _
  | .appendReturn _ _ _ _ | .appendFail _ _ | .executer _ _ | .clientGet _ _
  | .clientPut _ _ _ | .addServer _ _ | .removeServer _ _ | .callStep _ _ _ =>
      inferInstanceAs (Decidable True)

theorem TakesQueue.abides {a : Action} (ok : c.TakesQueue a) : c.Abides .taken a := by
  cases a with
  | raftImpl r => exact ⟨True.intro, ok, fun _ _ _ _ => True.intro⟩
  | _ => simp [Abides, Replica.Rules.taken]

theorem noneOrphaned {servers : List Int} {config : Int → IntMap ServerInfo}
    {h : List (Cluster × Action)} (run : Run step (launch servers config) h c)
    (ok : Meets TakesQueue h) : NoneOrphaned c := by
  intro r call mem op it accepted
  have custody := replicas_invariant (I := fun _ => Replica.InCustody) run
    (ok.mono fun _ _ => TakesQueue.abides) (fun q => .initialise q (config q))
    (fun _ _ _ => Replica.InCustody.change) r
  have backed := custody.backed call mem
  cases call with
  | waiting op' it' =>
      cases accepted
      have handle := (custody.handle op it (List.mem_map.mpr ⟨_, mem, rfl⟩)).1
      exact backed.symm.imp_right fun at_ => ⟨handle, custody.carried at_.2⟩
  | returned op' it' ret =>
      simp only [Call.accepted] at accepted
      split at accepted
      · cases accepted
      · next taken =>
        cases accepted
        exact Or.inl (backed.resolve_left taken)
  | _ => cases accepted

/-- Every operation in the queue is pushed, and later executed. -/
theorem noneOrphaned_answeredPut :
    (((outcome step (fixed threeServers) answeredPut).2.node 1).calls.filterMap
      Call.accepted).length = 1 ∧ NoneOrphaned (outcome step (fixed threeServers) answeredPut).2 :=
  ⟨by decide +kernel, noneOrphaned (outcome_run _ _ _) (by decide +kernel)⟩

/-- Server 1 accepts a PUT as the leader, and is a follower of term 2 when `raftImpl`
gets to it: the queue is cleared. -/
def droppedPut : List Action :=
  plainElection ++ [.clientPut 1 5 7, .callStep 1 0 0, .callStep 1 0 0, .raftImpl 1,
    .electionTick 3 50 5, .voteSend 3 1, .voteDeliver 3 1 51, .raftImpl 1, .raftImpl 1]

theorem not_noneOrphaned : ¬ ∀ (servers : List Int) (config : Int → IntMap ServerInfo)
    (h : List (Cluster × Action)) (c : Cluster),
    Run step (launch servers config) h c → NoneOrphaned c := by
  intro always
  have waits : ((outcome step (fixed threeServers) droppedPut).2.node 1).calls[0]?.bind
      Call.accepted = some (⟨.put 5 7, some 0⟩, 0) := by decide +kernel
  have gone : ((outcome step (fixed threeServers) droppedPut).2.node 1).carried = [] := by
    decide +kernel
  have open_ : ((outcome step (fixed threeServers) droppedPut).2.node 1).promises.results = [] := by
    decide +kernel
  obtain ⟨call, at_, accepted⟩ := Option.bind_eq_some_iff.mp waits
  rcases always _ _ _ _ (outcome_run step (fixed threeServers) droppedPut) 1 call
    (List.mem_of_getElem? at_) _ _ accepted with ⟨res, done⟩ | ⟨_, carried⟩
  · rw [open_] at done
    exact absurd done List.not_mem_nil
  · rw [gone] at carried
    exact absurd carried List.not_mem_nil

end Cluster
end OhMyDb
