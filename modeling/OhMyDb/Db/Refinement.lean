import OhMyDb.Db.Serving

/-!
Along a run of the cluster the ledger of each replica makes a run of its own. The
messages tie the ledgers together by one fact: none of them carries a promise.
-/

namespace OhMyDb
open Function (update)
open Execution
open Ledger (Discipline Steps)

namespace Cluster
variable {c c' : Cluster} {a : Action} {D : Discipline}

/-- A step keeps to a discipline of the ledgers. -/
def Obeys (D : Discipline) (c : Cluster) : Action → Prop
  | .appendDeliver r k now => ∀ t ∈ (c.node r).appendThreads[k]?, ∀ args ∈ t.args,
      ∀ n ∈ (c.node t.peer).cut args now, D.cut (c.node t.peer).ledger n
  | .executer r ok => ∀ op ∈ (c.node r).execIn.head?, D.execute (c.node r).ledger op ok
  | _ => True

instance [∀ l n, Decidable (D.cut l n)] [∀ l op ok, Decidable (D.execute l op ok)]
    (c : Cluster) (a : Action) : Decidable (c.Obeys D a) :=
  match a with
  | .appendDeliver _ _ _ => inferInstanceAs (Decidable (∀ _, _ → _))
  | .executer _ _ => inferInstanceAs (Decidable (∀ _, _ → _))
  | .electionTick _ _ _ | .voteSend _ _ | .voteDeliver _ _ _ | .voteReturn _ _ _ _
  | .voteFail _ _ | .raftImpl _ | .appendSend _ _ _ | .appendResume _ _
  | .appendReturn _ _ _ _ | .appendFail _ _ | .clientGet _ _ | .clientPut _ _ _
  | .addServer _ _ | .removeServer _ _ | .callStep _ _ _ => inferInstanceAs (Decidable True)

/-- The ledger of every replica moves as ledgers do. -/
def LedgersMove (D : Discipline) (c c' : Cluster) : Prop :=
  ∀ q, Steps D (c.node q).ledger (c'.node q).ledger

theorem LedgersMove.set {r : Int} {x : Replica} (h : Steps D (c.node r).ledger x.ledger) :
    LedgersMove D c (c.set r x) := by
  intro q
  exact set_cases (P := fun y => Steps D (c.node q).ledger y.ledger) (fun here => here ▸ h)
    fun _ => .refl

theorem LedgersMove.same {r : Int} {x : Replica} (h : x.ledger = (c.node r).ledger) :
    LedgersMove D c (c.set r x) :=
  .set (h ▸ .refl)

theorem LedgersMove.trans {c'' : Cluster} (h : LedgersMove D c c') (h' : LedgersMove D c' c'') :
    LedgersMove D c c'' :=
  fun q => (h q).trans (h' q)

theorem pushVoteReply_ledger (c : Cluster) (r : Int) (k : Nat) (ret : RequestVoteRet) :
    LedgersMove D c (c.pushVoteReply r k ret) :=
  .same rfl

/-- A thread of `r` is changed, but for the message it has sent. -/
theorem updateThread_ledger {r : Int} {x : Replica} (k : Nat) {f : AppendThread → AppendThread}
    (same : ∀ t, (f t).args = t.args) (bare : (c.node r).ledger.Bare)
    (h : Steps D (c.node r).ledger x.ledger) :
    LedgersMove D c (c.set r (x.updateAppendThread k f)) :=
  .set (h.tail (.send _ x.handlers ((bare.steps h).modify k same)))

theorem pushAppendReply_ledger {r : Int} (bare : (c.node r).ledger.Bare) (k : Nat)
    (ret : AppendEntriesRet) : LedgersMove D c (c.pushAppendReply r k ret) :=
  updateThread_ledger k (fun _ => rfl) bare .refl

theorem settleAppend_ledger {p owner : Int} {k : Nat} {args : AppendEntriesParams} {x : Replica}
    {outcome : Replica.AppendOutcome} (bare : ∀ q, (c.node q).ledger.Bare)
    (h : Steps D (c.node p).ledger x.ledger)
    (rest : ∀ e ∈ outcome.rest, e.op.promiseHandle = none) :
    LedgersMove D c (c.settleAppend p owner k args x outcome) := by
  cases outcome with
  | replied ret =>
      have moved := LedgersMove.set h
      exact moved.trans (pushAppendReply_ledger ((bare owner).steps (moved owner)) k ret)
  | suspended update current left =>
      refine .set (h.tail (.send x.appendThreads _ ⟨((bare p).steps h).threads, ?_⟩))
      intro handler hh
      rcases List.mem_append.mp hh with hh | hh
      · exact ((bare p).steps h).handlers handler hh
      · obtain rfl := List.mem_singleton.mp hh
        exact rest

theorem Transition.ledger (tr : Transition c a c') (bare : ∀ q, (c.node q).ledger.Bare)
    (ok : c.Obeys D a) : LedgersMove D c c' := by
  cases tr with
  | electionTick r now timeout => exact .same (Replica.electionTick_ledger _ _ _)
  | voteSend r k t _ _ _ _ => exact .same rfl
  | voteDeliver r k now t args _ _ _ =>
      exact (LedgersMove.same (Replica.requestVote_ledger _ _ _)).trans
        (pushVoteReply_ledger _ _ _ _)
  | voteReturn r k reply now t _ _ _ => exact .same (Replica.voteReply_ledger _ _ _ _)
  | voteFail r k t _ _ => exact .same rfl
  | raftImpl r => exact .set (Replica.raftImpl_ledger (bare r))
  | appendSend r k junk t _ _ _ _ =>
      refine .set (.single (.send _ (c.node r).handlers ⟨fun u hu => ?_, (bare r).handlers⟩))
      rcases List.mem_or_eq_of_mem_modify hu with hu | ⟨v, hv, rfl⟩
      · exact (bare r).threads u hu
      · rintro args ⟨⟩
        exact Replica.entriesFrom_bare _ _
  | appendDeliver r k now t args ht ha _ =>
      have carried := (bare r).threads t (List.mem_of_getElem? ht) args ha
      obtain ⟨steps, rest⟩ := Replica.appendEntries_ledger (c.node t.peer) args now carried
        (ok t ht args ha)
      exact settleAppend_ledger bare steps fun e he => carried e (rest e he)
  | appendUpdate p j h peer hj _ =>
      have same := (c.node p).updatePeers_ledger peer
      have bare' : ((c.node p).updatePeers peer).ledger.Bare := by
        rw [same]
        exact bare p
      refine .set (.tail (b := ((c.node p).updatePeers peer).ledger) (by rw [same])
        (.send _ _ ⟨bare'.threads, ?_⟩))
      intro handler hh
      rcases List.mem_or_eq_of_mem_set hh with hh | rfl
      · exact bare'.handlers handler hh
      · exact (bare p).handlers h (List.mem_of_getElem? hj)
  | appendResume p j h hj _ =>
      have carried := (bare p).handlers h (List.mem_of_getElem? hj)
      obtain ⟨steps, rest⟩ := Replica.appendRest_ledger (D := D)
        ({ c.node p with handlers := (c.node p).handlers.eraseIdx j }.checkIndex h.current)
        h.args h.rest carried
      refine settleAppend_ledger bare (.head ?_ steps) fun e he => carried e (rest e he)
      rw [Replica.checkIndex_ledger]
      exact .send _ _ ⟨(bare p).threads, fun handler hh =>
        (bare p).handlers handler (List.mem_of_mem_eraseIdx hh)⟩
  | appendReturn r k reply now t args _ _ _ _ =>
      exact updateThread_ledger k (fun _ => rfl) (bare r)
        (Replica.appendReply_ledger _ _ _ _ _ _ _)
  | appendFail r k t _ _ => exact updateThread_ledger k (fun _ => rfl) (bare r) .refl
  | executer r status => exact .set (Replica.executer_ledger _ _ ok)
  | clientGet r key => exact .set (.single (Replica.clientCall_ledger _ _))
  | clientPut r key value => exact .set (.single (Replica.clientCall_ledger _ _))
  | addServer r args => exact .set (.single (Replica.addServer_ledger _ _))
  | removeServer r serverId => exact .set (.single (Replica.removeServer_ledger _ _))
  | callStep r j now call p hc hp => exact .set (Replica.advance_ledger hc hp)

theorem launch_ledger (servers : List Int) (config : Int → IntMap ServerInfo) (q : Int) :
    ((launch servers config).node q).ledger = .start := by
  have fresh := Replica.initialise_fresh q (config q)
  change (Replica.initialise q (config q)).ledger = .start
  simp only [Replica.ledger, Replica.executions, fresh.calls, fresh.promises, fresh.dispatchOut,
    fresh.raftIn, fresh.raftThread, fresh.logs, fresh.commitIndex, fresh.lastApplied,
    fresh.execIn, fresh.raftOut, fresh.db, fresh.hist, fresh.appendThreads, fresh.handlers]
  rfl

/-- Each ledger makes a run of its own. -/
theorem ledgers {servers : List Int} {config : Int → IntMap ServerInfo}
    {h : List (Cluster × Action)} (run : Run step (launch servers config) h c)
    (ok : Meets (Obeys D) h) (q : Int) : Steps D .start (c.node q).ledger := by
  have start : Ledger.Bare .start := ⟨fun _ h => absurd h List.not_mem_nil,
    fun _ h => absurd h List.not_mem_nil⟩
  refine run.stateInvariant (I := fun c => ∀ q, Steps D .start (c.node q).ledger) ok ?_ ?_ q
  · intro q
    rw [launch_ledger]
  · intro c a c' steps ok hs q
    exact (steps q).trans ((Transition.of_step hs).2.ledger (fun p => start.steps (steps p)) ok q)

end Cluster
end OhMyDb
