import OhMyDb.Model.Cluster
import OhMyDb.Lib.Execution

/-!
What a step of the cluster can do, with everything that had to hold for it. All
later case analyses of steps go through `Transition`.
-/

namespace OhMyDb
open Function (update)

namespace Replica
variable {r r' : Replica} {k : Nat}

theorem voteSend_eq_some (h : r.voteSend k = some r') : ∃ t, r.voteThreads[k]? = some t ∧
    t.args = none ∧ t.finished = false ∧ t.peer ∈ r.peers ∧ r' = r.updateVoteThread k fun t =>
      { t with args := some (r.voteParams t.savedCurrentTerm) } := by
  simp only [voteSend] at h
  split at h
  · cases h
  · next t ht =>
    obtain ⟨⟨ha, hf, hp⟩, rfl⟩ := Option.ite_none_right_eq_some.mp h |>.imp_right Option.some.inj
    exact ⟨t, ht, by simpa using ha, hf, hp, rfl⟩

theorem voteReturn_eq_some {reply : RequestVoteRet} {now : Int}
    (h : r.voteReturn k reply now = some r') : ∃ t, r.voteThreads[k]? = some t ∧
      t.finished = false ∧ reply ∈ t.replies ∧
      r' = (r.voteReply t.savedCurrentTerm reply now).updateVoteThread k
        fun t => { t with finished := true, received := some reply } := by
  simp only [voteReturn] at h
  split at h
  · cases h
  · next t ht =>
    obtain ⟨⟨hf, hr⟩, rfl⟩ := Option.ite_none_right_eq_some.mp h |>.imp_right Option.some.inj
    exact ⟨t, ht, hf, hr, rfl⟩

theorem voteFail_eq_some (h : r.voteFail k = some r') : ∃ t, r.voteThreads[k]? = some t ∧
    t.finished = false ∧ r' = r.updateVoteThread k fun t => { t with finished := true } := by
  simp only [voteFail] at h
  split at h
  · cases h
  · next t ht =>
    obtain ⟨⟨hf, _⟩, rfl⟩ := Option.ite_none_right_eq_some.mp h |>.imp_right Option.some.inj
    exact ⟨t, ht, hf, rfl⟩

theorem appendSend_eq_some {junk : Int} (h : r.appendSend k junk = some r') :
    ∃ t, r.appendThreads[k]? = some t ∧ t.args = none ∧ t.finished = false ∧ t.peer ∈ r.peers ∧
      r' = { r with state := { r.state with
          nextIndex := (r.state.nextIndex.subscript t.peer 0).2 } }.updateAppendThread k fun x =>
        { x with
          nextIndex := (r.state.nextIndex.subscript t.peer 0).1
          args := some (r.appendParams x.savedCurrentTerm
            (r.state.nextIndex.subscript t.peer 0).1 junk) } := by
  simp only [appendSend] at h
  split at h
  · cases h
  · next t ht =>
    obtain ⟨⟨ha, hf, hp⟩, rfl⟩ := Option.ite_none_right_eq_some.mp h |>.imp_right Option.some.inj
    exact ⟨t, ht, by simpa using ha, hf, hp, rfl⟩

theorem appendReturn_eq_some {reply : AppendEntriesRet} {now : Int}
    (h : r.appendReturn k reply now = some r') : ∃ t args, r.appendThreads[k]? = some t ∧
      t.args = some args ∧ t.finished = false ∧ reply ∈ t.replies ∧
      r' = (r.appendReply t.peer t.savedCurrentTerm t.nextIndex args.entries.length reply
        now).updateAppendThread k fun t => { t with finished := true } := by
  simp only [appendReturn] at h
  split at h
  · cases h
  · next t ht =>
    split at h
    · cases h
    · next args ha =>
      obtain ⟨⟨hf, hr⟩, rfl⟩ := Option.ite_none_right_eq_some.mp h |>.imp_right Option.some.inj
      exact ⟨t, args, ht, ha, hf, hr, rfl⟩

theorem appendFail_eq_some (h : r.appendFail k = some r') : ∃ t, r.appendThreads[k]? = some t ∧
    t.finished = false ∧ r' = r.updateAppendThread k fun t => { t with finished := true } := by
  simp only [appendFail] at h
  split at h
  · cases h
  · next t ht =>
    obtain ⟨⟨hf, _⟩, rfl⟩ := Option.ite_none_right_eq_some.mp h |>.imp_right Option.some.inj
    exact ⟨t, ht, hf, rfl⟩

theorem callStep_eq_some {j : Nat} {now : Int} (h : r.callStep j now = some r') :
    ∃ call p, r.calls[j]? = some call ∧ r.advance now call = some p ∧
      r' = { p.1 with calls := p.1.calls.set j p.2 } := by
  simp only [callStep] at h
  split at h
  · cases h
  · next call hc =>
    obtain ⟨p, hp, rfl⟩ := Option.map_eq_some_iff.mp h
    exact ⟨call, p, hc, hp, rfl⟩

end Replica

namespace Cluster

@[simp] theorem set_servers (c : Cluster) (r : Int) (x : Replica) :
    (c.set r x).servers = c.servers := rfl

@[simp] theorem set_node (c : Cluster) (r : Int) (x : Replica) :
    (c.set r x).node = update c.node r x := rfl

theorem set_cases {P : Replica → Prop} {c : Cluster} {q r : Int} {x : Replica}
    (here : q = r → P x) (there : q ≠ r → P (c.node q)) : P ((c.set r x).node q) := by
  by_cases e : q = r
  · rw [set_node, e, Function.update_self]
    exact here e
  · rw [set_node, Function.update_of_ne e]
    exact there e

section Frame
variable {β : Type*} (f : Replica → β) {c : Cluster}

/-- What is the same at one replica is the same at all. -/
theorem set_same {r : Int} {x : Replica} (same : f x = f (c.node r)) (q : Int) :
    f ((c.set r x).node q) = f (c.node q) :=
  set_cases (P := fun y => f y = f (c.node q)) (fun here => here ▸ same) fun _ => rfl

/-- Replies change nothing but the threads they are for. -/
theorem pushVoteReply_same (threads : ∀ x k g, f (Replica.updateVoteThread x k g) = f x) (r : Int)
    (k : Nat) (ret : RequestVoteRet) (q : Int) :
    f ((c.pushVoteReply r k ret).node q) = f (c.node q) :=
  set_same f (threads _ _ _) q

theorem pushAppendReply_same (threads : ∀ x k g, f (Replica.updateAppendThread x k g) = f x)
    (r : Int) (k : Nat) (ret : AppendEntriesRet) (q : Int) :
    f ((c.pushAppendReply r k ret).node q) = f (c.node q) :=
  set_same f (threads _ _ _) q

/-- A call that goes on leaves a reply or joins the handlers. -/
theorem settleAppend_same (threads : ∀ x k g, f (Replica.updateAppendThread x k g) = f x)
    (handlers : ∀ x hs, f { x with handlers := hs } = f x) (p owner : Int) (k : Nat)
    (args : AppendEntriesParams) (x : Replica) (outcome : Replica.AppendOutcome) (q : Int) :
    f ((c.settleAppend p owner k args x outcome).node q) = f ((c.set p x).node q) := by
  cases outcome with
  | replied ret => exact pushAppendReply_same f threads _ _ _ _
  | suspended update current rest =>
      refine set_cases (P := fun y => f y = f ((c.set p x).node q)) (fun here => ?_) fun there => ?_
      · rw [handlers, set_node, here, Function.update_self]
      · rw [set_node, Function.update_of_ne there]

end Frame

/-- The effect of an action that can be taken. -/
inductive Transition (c : Cluster) : Action → Cluster → Prop where
  | electionTick (r now timeout : Int) :
      Transition c (.electionTick r now timeout) (c.set r ((c.node r).electionTick now timeout))
  | voteSend (r : Int) (k : Nat) (t : VoteThread) :
      (c.node r).voteThreads[k]? = some t → t.args = none → t.finished = false →
      t.peer ∈ (c.node r).peers →
      Transition c (.voteSend r k) (c.set r ((c.node r).updateVoteThread k fun t =>
        { t with args := some ((c.node r).voteParams t.savedCurrentTerm) }))
  | voteDeliver (r : Int) (k : Nat) (now : Int) (t : VoteThread) (args : RequestVoteParams) :
      (c.node r).voteThreads[k]? = some t → t.args = some args → t.peer ∈ c.servers →
      Transition c (.voteDeliver r k now)
        ((c.set t.peer ((c.node t.peer).requestVote args now).1).pushVoteReply r k
          ((c.node t.peer).requestVote args now).2)
  | voteReturn (r : Int) (k : Nat) (reply : RequestVoteRet) (now : Int) (t : VoteThread) :
      (c.node r).voteThreads[k]? = some t → t.finished = false → reply ∈ t.replies →
      Transition c (.voteReturn r k reply now)
        (c.set r (((c.node r).voteReply t.savedCurrentTerm reply now).updateVoteThread k
          fun t => { t with finished := true, received := some reply }))
  | voteFail (r : Int) (k : Nat) (t : VoteThread) :
      (c.node r).voteThreads[k]? = some t → t.finished = false →
      Transition c (.voteFail r k)
        (c.set r ((c.node r).updateVoteThread k fun t => { t with finished := true }))
  | raftImpl (r : Int) : Transition c (.raftImpl r) (c.set r (c.node r).raftImpl)
  | appendSend (r : Int) (k : Nat) (junk : Int) (t : AppendThread) :
      (c.node r).appendThreads[k]? = some t → t.args = none → t.finished = false →
      t.peer ∈ (c.node r).peers →
      Transition c (.appendSend r k junk) (c.set r
        ({ c.node r with state := { (c.node r).state with
            nextIndex := ((c.node r).state.nextIndex.subscript t.peer 0).2 } }.updateAppendThread
          k fun x => { x with
            nextIndex := ((c.node r).state.nextIndex.subscript t.peer 0).1
            args := some ((c.node r).appendParams x.savedCurrentTerm
              ((c.node r).state.nextIndex.subscript t.peer 0).1 junk) }))
  | appendDeliver (r : Int) (k : Nat) (now : Int) (t : AppendThread)
      (args : AppendEntriesParams) :
      (c.node r).appendThreads[k]? = some t → t.args = some args → t.peer ∈ c.servers →
      Transition c (.appendDeliver r k now)
        (c.settleAppend t.peer r k args ((c.node t.peer).appendEntries args now).1
          ((c.node t.peer).appendEntries args now).2)
  | appendUpdate (p : Int) (j : Nat) (h : AppendHandler) (peer : PeerUpdate) :
      (c.node p).handlers[j]? = some h → h.update = some peer →
      Transition c (.appendResume p j) (c.set p { (c.node p).updatePeers peer with
        handlers := ((c.node p).updatePeers peer).handlers.set j { h with update := none } })
  | appendResume (p : Int) (j : Nat) (h : AppendHandler) :
      (c.node p).handlers[j]? = some h → h.update = none →
      Transition c (.appendResume p j) (c.settleAppend p h.owner h.thread h.args
        (({ c.node p with handlers := (c.node p).handlers.eraseIdx j }.checkIndex
          h.current).appendRest h.args h.rest).1
        (({ c.node p with handlers := (c.node p).handlers.eraseIdx j }.checkIndex
          h.current).appendRest h.args h.rest).2)
  | appendReturn (r : Int) (k : Nat) (reply : AppendEntriesRet) (now : Int)
      (t : AppendThread) (args : AppendEntriesParams) :
      (c.node r).appendThreads[k]? = some t → t.args = some args → t.finished = false →
      reply ∈ t.replies →
      Transition c (.appendReturn r k reply now)
        (c.set r (((c.node r).appendReply t.peer t.savedCurrentTerm t.nextIndex
          args.entries.length reply now).updateAppendThread k
            fun t => { t with finished := true }))
  | appendFail (r : Int) (k : Nat) (t : AppendThread) :
      (c.node r).appendThreads[k]? = some t → t.finished = false →
      Transition c (.appendFail r k)
        (c.set r ((c.node r).updateAppendThread k fun t => { t with finished := true }))
  | executer (r : Int) (ok : Bool) :
      Transition c (.executer r ok) (c.set r ((c.node r).executer ok))
  | clientGet (r key : Int) :
      Transition c (.clientGet r key) (c.set r ((c.node r).clientCall (.get key)))
  | clientPut (r key value : Int) :
      Transition c (.clientPut r key value) (c.set r ((c.node r).clientCall (.put key value)))
  | addServer (r : Int) (args : AddServerParams) :
      Transition c (.addServer r args) (c.set r ((c.node r).addServer args))
  | removeServer (r serverId : Int) :
      Transition c (.removeServer r serverId) (c.set r ((c.node r).removeServer serverId))
  | callStep (r : Int) (j : Nat) (now : Int) (call : Call) (p : Replica × Call) :
      (c.node r).calls[j]? = some call → (c.node r).advance now call = some p →
      Transition c (.callStep r j now) (c.set r { p.1 with calls := p.1.calls.set j p.2 })

theorem locally_eq_some {c c' : Cluster} {r : Int} {f : Replica → Option Replica} :
    c.locally r f = some c' ↔ ∃ x, f (c.node r) = some x ∧ c.set r x = c' := by
  simp [locally, Option.map_eq_some_iff]

theorem Transition.of_act {c c' : Cluster} {a : Action} (h : c.act a = some c') :
    Transition c a c' := by
  cases a with
  | electionTick r now timeout =>
      simp only [act] at h
      obtain ⟨x, ⟨⟩, rfl⟩ := locally_eq_some.mp h
      exact .electionTick r now timeout
  | voteSend r k =>
      simp only [act] at h
      obtain ⟨x, hx, rfl⟩ := locally_eq_some.mp h
      obtain ⟨t, ht, ha, hf, hp, rfl⟩ := Replica.voteSend_eq_some hx
      exact .voteSend r k t ht ha hf hp
  | voteDeliver r k now =>
      simp only [act] at h
      simp only [Cluster.voteDeliver] at h
      split at h
      · cases h
      · next t ht =>
        split at h
        · cases h
        · next args ha =>
          obtain ⟨hp, rfl⟩ := Option.ite_none_right_eq_some.mp h |>.imp_right Option.some.inj
          exact .voteDeliver r k now t args ht ha hp
  | voteReturn r k reply now =>
      simp only [act] at h
      obtain ⟨x, hx, rfl⟩ := locally_eq_some.mp h
      obtain ⟨t, ht, hf, hr, rfl⟩ := Replica.voteReturn_eq_some hx
      exact .voteReturn r k reply now t ht hf hr
  | voteFail r k =>
      simp only [act] at h
      obtain ⟨x, hx, rfl⟩ := locally_eq_some.mp h
      obtain ⟨t, ht, hf, rfl⟩ := Replica.voteFail_eq_some hx
      exact .voteFail r k t ht hf
  | raftImpl r =>
      simp only [act] at h
      obtain ⟨x, ⟨⟩, rfl⟩ := locally_eq_some.mp h
      exact .raftImpl r
  | appendSend r k junk =>
      simp only [act] at h
      obtain ⟨x, hx, rfl⟩ := locally_eq_some.mp h
      obtain ⟨t, ht, ha, hf, hp, rfl⟩ := Replica.appendSend_eq_some hx
      exact .appendSend r k junk t ht ha hf hp
  | appendDeliver r k now =>
      simp only [act] at h
      simp only [Cluster.appendDeliver] at h
      split at h
      · cases h
      · next t ht =>
        split at h
        · cases h
        · next args ha =>
          obtain ⟨hp, rfl⟩ := Option.ite_none_right_eq_some.mp h |>.imp_right Option.some.inj
          exact .appendDeliver r k now t args ht ha hp
  | appendResume p j =>
      simp only [act] at h
      simp only [Cluster.appendResume] at h
      split at h
      · cases h
      · next x hx =>
        split at h
        · next peer hu =>
          cases h
          exact .appendUpdate p j x peer hx hu
        · next hu =>
          cases h
          exact .appendResume p j x hx hu
  | appendReturn r k reply now =>
      simp only [act] at h
      obtain ⟨x, hx, rfl⟩ := locally_eq_some.mp h
      obtain ⟨t, args, ht, ha, hf, hr, rfl⟩ := Replica.appendReturn_eq_some hx
      exact .appendReturn r k reply now t args ht ha hf hr
  | appendFail r k =>
      simp only [act] at h
      obtain ⟨x, hx, rfl⟩ := locally_eq_some.mp h
      obtain ⟨t, ht, hf, rfl⟩ := Replica.appendFail_eq_some hx
      exact .appendFail r k t ht hf
  | executer r ok =>
      simp only [act] at h
      obtain ⟨x, ⟨⟩, rfl⟩ := locally_eq_some.mp h
      exact .executer r ok
  | clientGet r key =>
      simp only [act] at h
      obtain ⟨x, ⟨⟩, rfl⟩ := locally_eq_some.mp h
      exact .clientGet r key
  | clientPut r key value =>
      simp only [act] at h
      obtain ⟨x, ⟨⟩, rfl⟩ := locally_eq_some.mp h
      exact .clientPut r key value
  | addServer r args =>
      simp only [act] at h
      obtain ⟨x, ⟨⟩, rfl⟩ := locally_eq_some.mp h
      exact .addServer r args
  | removeServer r serverId =>
      simp only [act] at h
      obtain ⟨x, ⟨⟩, rfl⟩ := locally_eq_some.mp h
      exact .removeServer r serverId
  | callStep r j now =>
      simp only [act] at h
      obtain ⟨x, hx, rfl⟩ := locally_eq_some.mp h
      obtain ⟨call, p, hc, hp, rfl⟩ := Replica.callStep_eq_some hx
      exact .callStep r j now call p hc hp

/-- A step is taken by a server, and has the effect of its action. -/
theorem Transition.of_step {c c' : Cluster} {a : Action} (h : c.step a = some c') :
    a.replica ∈ c.servers ∧ Transition c a c' := by
  simp only [step] at h
  obtain ⟨hr, h⟩ := Option.ite_none_right_eq_some.mp h
  exact ⟨hr, .of_act h⟩

end Cluster
end OhMyDb
