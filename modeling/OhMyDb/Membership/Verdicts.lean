import OhMyDb.Membership.Acknowledgement
import OhMyDb.Membership.Configuration
import OhMyDb.Model.Admin

/-!
What the result of `Admin::AddServer` or `Admin::RemoveServer` says of the cluster. The
loops take `SERVER_EXISTS` for a success and `SERVER_NOT_FOUND` for a failure, while
`ClusterConfig` changes when an entry is appended and an earlier RPC may have made the
change.
-/

namespace OhMyDb
open Execution

/-- The changes the administrator asks for. -/
def AdminCall.Asks : AdminCall → Command → Prop
  | .addServer param, .addServer info => info.id = param.serverId
  | .removeServer id, .removeServer serverId => serverId = id
  | _, _ => False

namespace Call
variable {call : Call}

/-- The call has submitted its change. `AddServer` may have done so, whatever it has
returned. -/
def pastSubmit : Call → Bool
  | .addWaitCommit _ _ _ | .removeWaitCommit _ _ _ | .addReturned _ => true
  | .removeReturned ret => ret.errorCode = .ok ∨ ret.errorCode = .curNotCommittedTimeout
  | _ => false

/-- The call makes a change that is asked for, until it returns an error code that is
judged right. -/
def Answers (asks : Command → Prop) (right : ErrorCode → Prop) (call : Call) : Prop :=
  (∃ m ∈ call.membership, asks m.1) ∨ ∃ ret ∈ call.membershipRet, right ret.errorCode

theorem Answers.mono {asks : Command → Prop} {right right' : ErrorCode → Prop}
    (h : call.Answers asks right) (imp : ∀ code, right code → right' code) :
    call.Answers asks right' :=
  h.imp_right fun ⟨ret, hret, ok⟩ => ⟨ret, hret, imp _ ok⟩

theorem Answers.submission {asks : Command → Prop} {right : ErrorCode → Prop}
    (h : call.Answers asks right) : call.submission = none := by
  rcases h with ⟨m, stage, _⟩ | ⟨ret, returned, _⟩
  · exact submission_of_membership stage
  · cases call with
    | addReturned | removeReturned => rfl
    | _ => cases returned

theorem submission_of_pastSubmit (h : call.pastSubmit = true) : call.submission = none := by
  cases call with
  | addWaitCommit | removeWaitCommit | addReturned | removeReturned => rfl
  | _ => cases h

end Call

namespace Replica
variable {R : Rules} {r r' : Replica} {call : Call}

/-- A call that is not one of a client stays as it is until it makes a step. -/
theorem Change.keepsCall (ch : Change R r r') (quiet : ∀ r x, ¬ R.call r x) {j : ℕ}
    (hc : r.calls[j]? = some call) (own : call.submission = none) :
    r'.calls[j]? = some call := by
  have inside := (List.getElem?_eq_some_iff.mp hc).1
  cases ch with
  | client command _ => exact (List.getElem?_append_left inside).trans hc
  | start call _ _ => exact (List.getElem?_append_left inside).trans hc
  | call i x x' _ ok _ => exact absurd ok (quiet _ _)
  | queue i op it _ ok => exact absurd ok (quiet _ _)
  | submit i x x' command prev _ ok _ _ => exact absurd ok (quiet _ _)
  | discard i op it ret hi _ =>
      have elsewhere : i ≠ j := by
        rintro rfl
        rw [hc] at hi
        cases hi
        cases own
      exact (List.getElem?_set_ne elsewhere).trans hc
  | update saved u rest _ _ => cases u <;> exact hc
  | updateHandler i x u _ _ _ => cases u <;> exact hc
  | _ => exact hc

/-- A step of a call for a change of the configuration. -/
theorem advance_membership {now : Int} {p : Replica × Call} {command : Command}
    {stage : MembershipStage} (h : r.advance now call = some p)
    (member : call.membership = some (command, stage)) :
    (∃ stage', p.2.membership = some (command, stage')) ∨
    ∃ ret ∈ p.2.membershipRet, ret.errorCode ≠ .serverExists ∧ ret.errorCode ≠ .serverNotFound ∧
      (ret.errorCode = .ok → p.2.isOk = true) := by
  cases call with
  | addSubmit info prev | removeSubmit serverId prev =>
      cases h
      cases member
      exact Or.inl ⟨_, rfl⟩
  | addWaitPrev info n | removeWaitPrev serverId n =>
      cases member
      simp only [advance] at h
      split at h
      · cases h
        exact Or.inl ⟨_, rfl⟩
      · split at h <;> cases h
        · exact Or.inr ⟨_, rfl, by simp⟩
        · exact Or.inl ⟨_, rfl⟩
  | addWaitCommit info prev n =>
      cases member
      simp only [advance] at h
      split at h
      · cases h
        exact Or.inr ⟨_, rfl, by simp⟩
      · split at h
        · cases h
          exact Or.inr ⟨_, rfl, by simp [Call.isOk]⟩
        · split at h <;> cases h
          · exact Or.inr ⟨_, rfl, by simp⟩
          · exact Or.inl ⟨_, rfl⟩
  | removeWaitCommit serverId prev n =>
      cases member
      simp only [advance] at h
      split at h
      · cases h
        exact Or.inr ⟨_, rfl, by simp [Call.isOk]⟩
      · split at h <;> cases h
        · exact Or.inr ⟨_, rfl, by simp⟩
        · exact Or.inl ⟨_, rfl⟩
  | _ => cases member

/-- A call that has submitted its change goes on waiting for it, or returns so. -/
theorem advance_pastSubmit {now : Int} {p : Replica × Call} (h : r.advance now call = some p)
    (past : call.pastSubmit = true ∨ call.prevAtSubmit.isSome = true) :
    p.2.pastSubmit = true := by
  cases call with
  | addSubmit info prev | removeSubmit serverId prev =>
      cases h
      rfl
  | addWaitCommit info prev n =>
      simp only [advance] at h
      split at h
      · cases h
        rfl
      · split at h
        · cases h
          rfl
        · split at h <;> cases h <;> rfl
  | removeWaitCommit serverId prev n =>
      simp only [advance] at h
      split at h
      · cases h
        rfl
      · split at h <;> cases h <;> rfl
  | addReturned | removeReturned => cases h
  | _ => rcases past with past | past <;> cases past

/-- What `AddServer` begins with. -/
theorem addServer_calls (r : Replica) (args : AddServerParams) :
    ∃ call, (r.addServer args).calls = r.calls ++ [call] ∧
      ((∃ info stage, call.membership = some (.addServer info, stage) ∧
          info.id = args.serverId) ∨
        ∃ ret ∈ call.membershipRet, ret.errorCode = .notLeader ∨
          (ret.errorCode = .serverExists ∧ r.state.role = .leader ∧
            args.serverId ∈ r.state.clusterConfig)) := by
  unfold addServer
  split
  · exact ⟨_, rfl, Or.inr ⟨_, rfl, Or.inl rfl⟩⟩
  · next leads =>
    split
    · next known => exact ⟨_, rfl, Or.inr ⟨_, rfl, Or.inr ⟨rfl, not_not.mp leads, known⟩⟩⟩
    · exact ⟨_, rfl, Or.inl ⟨_, _, rfl, rfl⟩⟩

/-- What `RemoveServer` begins with. -/
theorem removeServer_calls (r : Replica) (serverId : Int) :
    ∃ call, (r.removeServer serverId).calls = r.calls ++ [call] ∧
      ((∃ stage, call.membership = some (.removeServer serverId, stage)) ∨
        ∃ ret ∈ call.membershipRet, ret.errorCode = .notLeader ∨
          (ret.errorCode = .serverNotFound ∧ r.state.role = .leader ∧
            serverId ∉ r.state.clusterConfig)) := by
  unfold removeServer
  split
  · exact ⟨_, rfl, Or.inr ⟨_, rfl, Or.inl rfl⟩⟩
  · next leads =>
    split
    · next missing => exact ⟨_, rfl, Or.inr ⟨_, rfl, Or.inr ⟨rfl, not_not.mp leads, missing⟩⟩⟩
    · exact ⟨_, rfl, Or.inl ⟨_, rfl⟩⟩

end Replica

namespace Cluster
variable {c c' : Cluster} {a : Action} {h : List (Cluster × Action)} {q : Int}

/-- Some replica holds an entry of the kind at an index up to its `CommitIndex`. -/
def Commits (asks : Command → Prop) (c : Cluster) : Prop :=
  ∃ r, ∃ n : ℕ, (n : Int) ≤ (c.node r).state.commitIndex ∧
    ∃ e, (c.node r).state.logs.items[n]? = some e ∧ asks e.op.command

/-- Replica `p` has had the operation with ticket `k` in its log as an entry of its own, at
index `n` and of term `term`. -/
def Appended (p : Int) (k n : ℕ) (term : Int) : List (Cluster × Action) → Cluster → Prop
  | [], _ => False
  | (c₀, a) :: h, c =>
      ((origins p ((c₀, a) :: h) c)[n]? = some (some k) ∧
        (c.node p).state.logs.items[n]?.map LogEntry.term = some term) ∨
      Appended p k n term h c₀

instance Appended.decide (p : Int) (k n : ℕ) (term : Int) : (h : List (Cluster × Action)) →
    (c : Cluster) → Decidable (Appended p k n term h c)
  | [], _ => inferInstanceAs (Decidable False)
  | (c₀, _) :: h, _ =>
      have := Appended.decide p k n term h c₀
      inferInstanceAs (Decidable (_ ∨ _))

/-- The entry of call `p.2` of replica `p.1` is what has removed server `id` from the
configuration of replica `r`: the server was a member before it and is none since. -/
def RemovedBy (config : Int → IntMap ServerInfo) (id : Int) (h : List (Cluster × Action))
    (c : Cluster) (r : Int) (p : Int × ℕ) : Prop :=
  ∃ k ∈ submitted p.1 p.2 h, ∃ n e, (c.node r).state.logs.items[n]? = some e ∧
    Appended p.1 k n e.term h c ∧
    id ∈ configOf (config r) ((c.node r).state.logs.items.take n) ∧
    ∀ m, n < m → id ∉ configOf (config r) ((c.node r).state.logs.items.take m)

/-- A call of a replica stays as it is, unless the step is its own. -/
theorem Transition.keepsCall (tr : Transition c a c') (bare : ∀ q, (c.node q).Bare) {j : ℕ}
    {call : Call} (hc : (c.node q).calls[j]? = some call) (own : call.submission = none) :
    (c'.node q).calls[j]? = some call ∨ ∃ now p, a = .callStep q j now ∧
      (c.node q).advance now call = some p ∧ (c'.node q).calls[j]? = some p.2 := by
  by_cases steps : ∃ r i now, a = .callStep r i now
  · obtain ⟨r, i, now, rfl⟩ := steps
    cases tr with
    | callStep _ _ _ x p hx hp =>
        have calls : p.1.calls = (c.node r).calls := (Replica.advance_frame hp).2.1
        by_cases here : q = r
        · subst here
          simp only [set_node, Function.update_self, calls]
          by_cases same : i = j
          · subst same
            obtain rfl : x = call := Option.some.inj (hx.symm.trans hc)
            have inside := (List.getElem?_eq_some_iff.mp hc).1
            exact Or.inr ⟨now, p, rfl, hp, List.getElem?_set_self inside⟩
          · exact Or.inl ((List.getElem?_set_ne same).trans hc)
        · refine Or.inl ?_
          rw [set_node, Function.update_of_ne here]
          exact hc
  · have quiet : c.Abides { call := fun _ _ => False } a := by
      cases a with
      | callStep r i now => exact absurd ⟨r, i, now, rfl⟩ steps
      | _ => simp [Abides]
    refine Or.inl (Replica.Changes.preserves (I := fun r => r.calls[j]? = some call)
      (tr.changes bare quiet q) (fun _ _ hc ch => ch.keepsCall (fun _ _ no => no) hc own) hc)

/-- A call that has submitted its change does not take it back. -/
theorem submitted_pastSubmit {servers : List Int} {config : Int → IntMap ServerInfo}
    (run : Run step (launch servers config) h c) {j k : ℕ} (hk : k ∈ submitted q j h) :
    ∃ call, (c.node q).calls[j]? = some call ∧ call.pastSubmit = true := by
  induction run with
  | start => cases hk
  | @next h c c' a before hs ih =>
      have tr := (Transition.of_step hs).2
      have kept (hk : k ∈ submitted q j h) :
          ∃ call, (c'.node q).calls[j]? = some call ∧ call.pastSubmit = true := by
        obtain ⟨call, hc, past⟩ := ih hk
        rcases tr.keepsCall (Cluster.bare before) hc (Call.submission_of_pastSubmit past) with
          same | ⟨now, p, -, hp, stepped⟩
        · exact ⟨call, same, past⟩
        · exact ⟨p.2, stepped, Replica.advance_pastSubmit hp (Or.inl past)⟩
      cases tr with
      | callStep r i now x p hx hp =>
          simp only [submitted] at hk
          split at hk
          · next own =>
            obtain ⟨rfl, rfl, submits⟩ := own
            rw [hx, Option.bind_some] at submits
            refine ⟨p.2, ?_, Replica.advance_pastSubmit hp (Or.inr submits)⟩
            have calls : p.1.calls = (c.node r).calls := (Replica.advance_frame hp).2.1
            simp only [set_node, Function.update_self, calls]
            exact List.getElem?_set_self (List.getElem?_eq_some_iff.mp hx).1
          · exact kept hk
      | _ => exact kept hk

/-- A call goes on for the change it was made for, and returns `OK` when its own entry is
committed. -/
theorem Tracks.answers (t : Tracks q h c) (bare : ∀ q, (c.node q).Bare) (tr : Transition c a c')
    {j : ℕ} {call : Call} {asks : Command → Prop} {right : ErrorCode → Prop}
    (hc : (c.node q).calls[j]? = some call) (answers : call.Answers asks right)
    (ok : Commits asks c' → right .ok)
    (free : ∀ code, code ≠ .ok → code ≠ .serverExists → code ≠ .serverNotFound → right code) :
    ∃ call', (c'.node q).calls[j]? = some call' ∧ call'.Answers asks right := by
  rcases tr.keepsCall bare hc answers.submission with same | ⟨now, p, rfl, hp, stepped⟩
  · exact ⟨call, same, answers⟩
  refine ⟨p.2, stepped, ?_⟩
  rcases answers with ⟨⟨command, stage⟩, member, asked⟩ | ⟨ret, returned, _⟩
  · rcases Replica.advance_membership hp member with ⟨stage', member'⟩ |
      ⟨ret, returned, exists_, missing, isOk⟩
    · exact Or.inl ⟨_, member', asked⟩
    · refine Or.inr ⟨ret, returned, ?_⟩
      by_cases code : ret.errorCode = .ok
      · rw [code]
        have called : (c.node q).calls[j]?.bind Call.membership = some (command, stage) := by
          rw [hc]
          exact member
        obtain ⟨k, -, n, le, -, entry⟩ := t.acknowledges tr called
          (by rw [stepped, Option.map_some, isOk code])
        obtain ⟨e, he, rfl⟩ := Option.map_eq_some_iff.mp entry
        exact ok ⟨q, n, le, e, he, asked⟩
      · exact free _ code exists_ missing
  · cases call with
    | addReturned | removeReturned => cases hp
    | _ => cases returned

end Cluster

/-- A member that was none in the beginning has been added by an entry of the log. -/
theorem configOf_mem {config : IntMap ServerInfo} {items : List LogEntry} {id : Int}
    (member : id ∈ configOf config items) (new : id ∉ config) :
    ∃ (n : ℕ) (e : LogEntry) (info : ServerInfo), items[n]? = some e ∧
      e.op.command = .addServer info ∧ info.id = id := by
  induction items using List.reverseRecOn with
  | nil => exact absurd member new
  | append_singleton items e ih =>
      rw [configOf_append] at member
      have old (member : id ∈ configOf config items) : ∃ (n : ℕ) (x : LogEntry)
          (info : ServerInfo), (items ++ [e])[n]? = some x ∧
            x.op.command = .addServer info ∧ info.id = id := by
        obtain ⟨n, x, info, hx, added⟩ := ih member
        refine ⟨n, x, info, ?_, added⟩
        rw [List.getElem?_append_left (List.getElem?_eq_some_iff.mp hx).1]
        exact hx
      cases command : e.op.command with
      | addServer info =>
          rw [command] at member
          rcases (AList.mem_insert _).mp member with rfl | member
          · exact ⟨items.length, e, info, List.getElem?_concat_length, command, rfl⟩
          · exact old member
      | removeServer serverId =>
          rw [command] at member
          exact old (AList.mem_erase.mp member).2
      | get | put =>
          rw [command] at member
          exact old member

namespace Admin
variable {a a' : Admin} {ret : MembershipRet}

theorem loop_stage (a : Admin) :
    a.loop.stage = .calling ∨ a.loop.stage = .returned false none := by
  unfold loop
  split
  · exact Or.inr rfl
  · exact Or.inl rfl

theorem loop_call (a : Admin) : a.loop.call = a.call := by
  unfold loop
  split <;> rfl

theorem noValue_stage (a : Admin) :
    a.noValue.stage = .calling ∨ a.noValue.stage = .returned false none := by
  simp only [noValue]
  split
  · exact Or.inr rfl
  · exact loop_stage _

theorem pinged_stage (a : Admin) (ok : Bool) :
    (a.pinged ok).stage = .calling ∨ (a.pinged ok).stage = .returned false none := by
  unfold pinged
  split
  · exact loop_stage _
  · exact Or.inr rfl

/-- A reply ends the loop with its error code, or does not end it. -/
theorem value_stage (h : a.value ret = some a') :
    (a'.stage = .calling ∨ a'.stage = .returned false none) ∨
    ∃ result, a'.stage = .returned result (some ret.errorCode) ∧
      (result = true → ret.errorCode = .ok ∨ ret.errorCode = .serverExists) := by
  unfold value at h
  split at h
  · unfold addServerRet at h
    split at h <;> cases h
    · next code => exact Or.inr ⟨true, rfl, fun _ => Or.inl code⟩
    · next code => exact Or.inr ⟨true, rfl, fun _ => Or.inr code⟩
    all_goals exact Or.inl (loop_stage _)
  · unfold removeServerRet at h
    split at h <;> cases h
    · next code => exact Or.inr ⟨true, rfl, fun _ => Or.inl code⟩
    · exact Or.inl (loop_stage _)
    · exact Or.inl (loop_stage _)
    · exact Or.inl (loop_stage _)
    · exact Or.inl (loop_stage _)
    · exact Or.inr ⟨false, rfl, fun no => (by cases no)⟩

theorem value_call (h : a.value ret = some a') : a'.call = a.call := by
  unfold value at h
  split at h
  · unfold addServerRet at h
    split at h <;> cases h <;> first | rfl | exact loop_call _
  · unfold removeServerRet at h
    split at h <;> cases h <;> first | rfl | exact loop_call _

end Admin

namespace Administration
variable {listens : String → Option Int} {config : Int → IntMap ServerInfo}
  {known : IntMap ServerInfo} {servers : List Int} {s s' : Administration}
  {h : List (Administration × AdminAction)}

/-- The step of the cluster that a step of the whole makes. -/
def clusterAction (listens : String → Option Int) (s : Administration) :
    AdminAction → Option Action
  | .cluster a => some a
  | .serve => (listens s.admin.client).map fun r => s.admin.call.request r
  | .serveLost addr => (listens addr).map fun r => s.admin.call.request r
  | _ => none

def clusterHistory (listens : String → Option Int) (h : List (Administration × AdminAction)) :
    List (Cluster × Action) :=
  driven Administration.cluster (clusterAction listens) h

/-- A change the administrator asks for is or has been committed. -/
def Committed (h : List (Administration × AdminAction)) (s : Administration) : Prop :=
  s.cluster.Commits s.admin.call.Asks ∨ ∃ p ∈ h, p.1.cluster.Commits s.admin.call.Asks

/-- Where the last RPC that is waited for was served: the state before, with its history. -/
def lastServed : List (Administration × AdminAction) →
    Option (List (Administration × AdminAction) × Administration)
  | [] => none
  | (s, .serve) :: h => some (h, s)
  | _ :: h => lastServed h

/-- No earlier attempt of the call had removed server `id` from the replica that served the
last RPC. -/
def NotByAttempt (listens : String → Option Int) (config : Int → IntMap ServerInfo) (id : Int)
    (h : List (Administration × AdminAction)) : Prop :=
  ∀ x ∈ lastServed h, ∀ r ∈ listens x.2.admin.client, ∀ p ∈ x.2.attempts,
    ¬ Cluster.RemovedBy config id (clusterHistory listens x.1) x.2.cluster r p

/-- `true` is returned for committed changes only, and `SERVER_NOT_FOUND` is no verdict on
a server that the call has removed itself. -/
structure VerdictsAgree (listens : String → Option Int) (config : Int → IntMap ServerInfo)
    (h : List (Administration × AdminAction)) (s : Administration) : Prop where
  success : ∀ code, s.admin.stage = .returned true code → Committed h s
  notFound : ∀ id, s.admin.call = .removeServer id →
    s.admin.stage = .returned false (some .serverNotFound) → NotByAttempt listens config id h

/-- What the administrator may conclude from `ClusterConfig` of replica `r`, the leader: a
server is found there because the committed part of the log has made it a member, and it is
missing while no attempt of the call has submitted its change. -/
def Concludes (config : Int → IntMap ServerInfo) (s : Administration) (r : Int) :
    AdminCall → Prop
  | .addServer param => param.serverId ∈ (s.cluster.node r).state.clusterConfig →
      param.serverId ∉ config r ∧ param.serverId ∈ configOf (config r)
        ((s.cluster.node r).state.logs.items.take
          ((s.cluster.node r).state.commitIndex + 1).toNat)
  | .removeServer id => id ∉ (s.cluster.node r).state.clusterConfig →
      ∀ p ∈ s.attempts, ∀ call ∈ (s.cluster.node p.1).calls[p.2]?, call.pastSubmit = false

instance (s : Administration) (r : Int) (call : AdminCall) :
    Decidable (s.Concludes config r call) :=
  match call with
  | .addServer _ => inferInstanceAs (Decidable (_ → _ ∧ _))
  | .removeServer _ => inferInstanceAs (Decidable (_ → ∀ _ ∈ _, _))

/-- No call of the cluster takes another change for its own, and what a leader tells the
administrator of its configuration can be concluded from. -/
def Informed (listens : String → Option Int) (config : Int → IntMap ServerInfo)
    (s : Administration) : AdminAction → Prop
  | .cluster a => s.cluster.AwaitsOwn a
  | .serve => ∀ r ∈ listens s.admin.client, (s.cluster.node r).state.role = .leader →
      s.Concludes config r s.admin.call
  | _ => True

instance (s : Administration) (a : AdminAction) : Decidable (s.Informed listens config a) :=
  match a with
  | .cluster _ => inferInstanceAs (Decidable (Cluster.AwaitsOwn _ _))
  | .serve => inferInstanceAs (Decidable (∀ _ ∈ listens _, _ → _))
  | .ping _ | .serveLost _ | .fail | .value => inferInstanceAs (Decidable True)

/-- What an error code says. -/
def Right (listens : String → Option Int) (config : Int → IntMap ServerInfo)
    (h : List (Administration × AdminAction)) (s : Administration) : ErrorCode → Prop
  | .ok | .serverExists => Committed h s
  | .serverNotFound => ∀ id, s.admin.call = .removeServer id → NotByAttempt listens config id h
  | _ => True

/-- The RPC that is waited for, or the verdict, says what is right. -/
structure Judged (listens : String → Option Int) (config : Int → IntMap ServerInfo)
    (h : List (Administration × AdminAction)) (s : Administration) : Prop where
  served : ∀ r j, s.admin.stage = .served r j →
    ∃ call, (s.cluster.node r).calls[j]? = some call ∧
      call.Answers s.admin.call.Asks (Right listens config h s)
  returned : ∀ result code, s.admin.stage = .returned result code →
    (result = true → code = some .ok ∨ code = some .serverExists) ∧
      ∀ x ∈ code, Right listens config h s x

theorem arrive_eq_some {addr : String} {x : Int × ℕ × Administration}
    (h : s.arrive listens addr = some x) : ∃ r c, listens addr = some r ∧
      s.cluster.step (s.admin.call.request r) = some c ∧
      x = (r, (s.cluster.node r).calls.length, { s with
        cluster := c, attempts := (r, (s.cluster.node r).calls.length) :: s.attempts }) := by
  obtain ⟨r, hr, h⟩ := Option.bind_eq_some_iff.mp h
  obtain ⟨c, hc, rfl⟩ := Option.map_eq_some_iff.mp h
  exact ⟨r, c, hr, hc, rfl⟩

/-- What a step can do. -/
inductive Transition (listens : String → Option Int) (s : Administration) :
    AdminAction → Administration → Prop where
  | cluster (a : Action) (c : Cluster) : s.cluster.step a = some c →
      Transition listens s (.cluster a) { s with cluster := c }
  | ping (ok : Bool) : s.admin.stage = .pinging →
      Transition listens s (.ping ok) { s with admin := s.admin.pinged ok }
  | serve (r : Int) (c : Cluster) : s.admin.stage = .calling → listens s.admin.client = some r →
      s.cluster.step (s.admin.call.request r) = some c →
      Transition listens s .serve { s with
        cluster := c
        attempts := (r, (s.cluster.node r).calls.length) :: s.attempts
        admin := { s.admin with stage := .served r (s.cluster.node r).calls.length } }
  | serveLost (addr : String) (r : Int) (c : Cluster) : listens addr = some r →
      s.cluster.step (s.admin.call.request r) = some c →
      Transition listens s (.serveLost addr) { s with
        cluster := c
        attempts := (r, (s.cluster.node r).calls.length) :: s.attempts
        lost := s.lost.erase addr }
  | fail (lost : List String) : Transition listens s .fail
      { s with admin := s.admin.noValue, lost := lost }
  | value (r : Int) (j : ℕ) (call : Call) (ret : MembershipRet) (a : Admin) :
      s.admin.stage = .served r j → (s.cluster.node r).calls[j]? = some call →
      call.membershipRet = some ret → s.admin.value ret = some a →
      Transition listens s .value { s with admin := a }

theorem Transition.of_step {a : AdminAction} (h : s.step listens a = some s') :
    Transition listens s a s' := by
  cases a with
  | cluster a =>
      obtain ⟨c, hc, rfl⟩ := Option.map_eq_some_iff.mp h
      exact .cluster a c hc
  | ping ok =>
      simp only [step] at h
      split at h
      · next stage =>
        cases h
        exact .ping ok stage
      · cases h
  | serve =>
      simp only [step] at h
      split at h
      · next stage =>
        obtain ⟨x, hx, rfl⟩ := Option.map_eq_some_iff.mp h
        obtain ⟨r, c, hr, hc, rfl⟩ := arrive_eq_some hx
        exact .serve r c stage hr hc
      · cases h
  | serveLost addr =>
      obtain ⟨-, h⟩ := Option.ite_none_right_eq_some.mp h
      obtain ⟨x, hx, rfl⟩ := Option.map_eq_some_iff.mp h
      obtain ⟨r, c, hr, hc, rfl⟩ := arrive_eq_some hx
      exact .serveLost addr r c hr hc
  | fail =>
      simp only [step] at h
      split at h
      · cases h
        exact .fail _
      · cases h
        exact .fail s.lost
      · cases h
  | value =>
      simp only [step] at h
      split at h
      · next r j stage =>
        obtain ⟨ret, hret, h⟩ := Option.bind_eq_some_iff.mp h
        obtain ⟨call, hc, hret⟩ := Option.bind_eq_some_iff.mp hret
        obtain ⟨a, ha, rfl⟩ := Option.map_eq_some_iff.mp h
        exact .value r j call ret a stage hc hret ha
      · cases h

/-- The cluster makes a run of its own. -/
theorem cluster_run {s₀ : Administration} (run : Run (step listens) s₀ h s) :
    Run Cluster.step s₀.cluster (clusterHistory listens h) s.cluster := by
  refine run.driven fun s a s' hs => ?_
  cases Transition.of_step hs with
  | cluster a c hc => exact hc
  | ping | fail | value => rfl
  | serve r c _ hr hc | serveLost addr r c hr hc =>
      simp only [clusterAction, hr, Option.map_some]
      exact hc

theorem Informed.awaitsOwn (ok : Meets (Informed listens config) h) :
    Meets Cluster.AwaitsOwn (clusterHistory listens h) := by
  refine ok.driven fun s a ok b hb => ?_
  cases a with
  | cluster a =>
      obtain rfl := Option.some.inj hb
      exact ok
  | serve | serveLost =>
      obtain ⟨r, -, rfl⟩ := Option.map_eq_some_iff.mp hb
      cases s.admin.call <;> exact True.intro
  | _ => cases hb

theorem Committed.next {a : AdminAction} (committed : Committed h s)
    (call : s'.admin.call = s.admin.call) : Committed ((s, a) :: h) s' := by
  refine Or.inr ?_
  rw [call]
  rcases committed with here | ⟨p, hp, before⟩
  · exact ⟨(s, a), List.mem_cons_self, here⟩
  · exact ⟨p, List.mem_cons_of_mem _ hp, before⟩

/-- What was right stays so until the next RPC is served. -/
theorem Right.next {a : AdminAction} (call : s'.admin.call = s.admin.call) (old : a ≠ .serve)
    (code : ErrorCode) (right : Right listens config h s code) :
    Right listens config ((s, a) :: h) s' code := by
  have same : lastServed ((s, a) :: h) = lastServed h := by
    cases a with
    | serve => exact absurd rfl old
    | _ => rfl
  cases code with
  | ok | serverExists => exact Committed.next right call
  | serverNotFound =>
      intro id asked
      rw [call] at asked
      unfold NotByAttempt
      rw [same]
      exact right id asked
  | _ => exact True.intro

/-- The administrator calls, or gives up for want of servers or tries. -/
theorem Judged.quiet (stage : s.admin.stage = .pinging ∨ s.admin.stage = .calling ∨
    s.admin.stage = .returned false none) : Judged listens config h s := by
  rcases stage with stage | stage | stage
  · exact ⟨by simp [stage], by simp [stage]⟩
  · exact ⟨by simp [stage], by simp [stage]⟩
  · refine ⟨by simp [stage], fun result code same => ?_⟩
    obtain ⟨rfl, rfl⟩ : false = result ∧ none = code := by simpa [stage] using same
    simp

/-- A step of the cluster. -/
theorem Judged.clusterStep (j : Judged listens config h s) {act : AdminAction} {a : Action}
    {c : Cluster} (tracks : ∀ q, Cluster.Tracks q (clusterHistory listens h) s.cluster)
    (bare : ∀ q, (s.cluster.node q).Bare) (hc : s.cluster.step a = some c)
    (old : act ≠ .serve) (cluster : s'.cluster = c) (admin : s'.admin = s.admin) :
    Judged listens config ((s, act) :: h) s' := by
  have kept (code : ErrorCode) : Right listens config h s code →
      Right listens config ((s, act) :: h) s' code :=
        Right.next (congrArg Admin.call admin) old code
  refine ⟨fun r i stage => ?_, fun result code stage => ?_⟩
  · rw [admin] at stage ⊢
    obtain ⟨call, here, answers⟩ := j.served r i stage
    rw [cluster]
    refine (tracks r).answers bare (Cluster.Transition.of_step hc).2 here
      (answers.mono kept) (fun commits => Or.inl ?_) fun code ok exists_ missing => ?_
    · rw [cluster, admin]
      exact commits
    · cases code with
      | ok => exact absurd rfl ok
      | serverExists => exact absurd rfl exists_
      | serverNotFound => exact absurd rfl missing
      | _ => exact True.intro
  · rw [admin] at stage
    obtain ⟨verdict, right⟩ := j.returned result code stage
    exact ⟨verdict, fun x hx => kept x (right x hx)⟩

/-- The administrator takes the reply. -/
theorem Judged.value (j : Judged listens config h s) {r : Int} {i : ℕ} {call : Call}
    {ret : MembershipRet} {a : Admin} (stage : s.admin.stage = .served r i)
    (hc : (s.cluster.node r).calls[i]? = some call) (returned : call.membershipRet = some ret)
    (value : s.admin.value ret = some a) :
    Judged listens config ((s, .value) :: h) { s with admin := a } := by
  obtain ⟨call', here, answers⟩ := j.served r i stage
  obtain rfl : call = call' := Option.some.inj (hc.symm.trans here)
  have right : Right listens config h s ret.errorCode := by
    rcases answers with ⟨m, member, _⟩ | ⟨ret', returned', right⟩
    · cases call with
      | addReturned | removeReturned => cases member
      | _ => cases returned
    · obtain rfl : ret = ret' := Option.some.inj (returned.symm.trans returned')
      exact right
  have same : a.call = s.admin.call := Admin.value_call value
  have kept (code : ErrorCode) : Right listens config h s code →
      Right listens config ((s, .value) :: h) { s with admin := a } code :=
    Right.next same (by simp) code
  rcases Admin.value_stage value with quiet | ⟨result, verdict, success⟩
  · exact .quiet (Or.inr quiet)
  · refine ⟨fun _ _ stage' => ?_, fun result' code stage' => ?_⟩
    · rw [verdict] at stage'
      cases stage'
    · rw [verdict] at stage'
      cases stage'
      refine ⟨fun yes => (success yes).imp (congrArg some) (congrArg some), fun x hx => ?_⟩
      obtain rfl := Option.some.inj hx
      exact kept _ right

/-- An RPC is served. -/
theorem Judged.serve
    (run : Run Cluster.step (.launch servers config) (clusterHistory listens h) s.cluster)
    (ok : s.Informed listens config .serve) {r : Int} {c : Cluster}
    (hr : listens s.admin.client = some r)
    (hc : s.cluster.step (s.admin.call.request r) = some c)
    (cluster : s'.cluster = c) (admin : s'.admin = { s.admin with
      stage := .served r (s.cluster.node r).calls.length }) :
    Judged listens config ((s, .serve) :: h) s' := by
  have same : s'.admin.call = s.admin.call := by rw [admin]
  refine ⟨fun r' j stage => ?_, fun result code stage => by simp [admin] at stage⟩
  obtain ⟨rfl, rfl⟩ : r = r' ∧ (s.cluster.node r).calls.length = j := by
    simpa [admin] using stage
  rw [same, cluster]
  cases asked : s.admin.call with
  | addServer param =>
      rw [asked] at hc
      obtain ⟨call, calls, begun⟩ := (s.cluster.node r).addServer_calls param
      refine ⟨call, ?_, ?_⟩
      · cases (Cluster.Transition.of_step hc).2
        rw [Cluster.set_node, Function.update_self, calls]
        exact List.getElem?_concat_length
      rcases begun with ⟨info, stage, member, id⟩ | ⟨ret, returned, refused | ⟨code, leads, known⟩⟩
      · exact Or.inl ⟨_, member, id⟩
      · refine Or.inr ⟨ret, returned, ?_⟩
        rw [refused]
        exact True.intro
      · refine Or.inr ⟨ret, returned, ?_⟩
        have found := ok r hr leads
        rw [asked] at found
        obtain ⟨new, member⟩ := found known
        obtain ⟨n, e, info, he, command, id⟩ := configOf_mem member new
        rw [List.getElem?_take] at he
        obtain ⟨below, he⟩ := Option.ite_none_right_eq_some.mp he
        have le : (n : Int) ≤ (s.cluster.node r).state.commitIndex := by omega
        rw [code]
        refine Or.inr ⟨(s, .serve), List.mem_cons_self, r, n, le, e, he, ?_⟩
        rw [same, asked, command]
        exact id
  | removeServer id =>
      rw [asked] at hc
      obtain ⟨call, calls, begun⟩ := (s.cluster.node r).removeServer_calls id
      refine ⟨call, ?_, ?_⟩
      · cases (Cluster.Transition.of_step hc).2
        rw [Cluster.set_node, Function.update_self, calls]
        exact List.getElem?_concat_length
      rcases begun with ⟨stage, member⟩ | ⟨ret, returned, refused | ⟨code, leads, missing⟩⟩
      · exact Or.inl ⟨_, member, rfl⟩
      · refine Or.inr ⟨ret, returned, ?_⟩
        rw [refused]
        exact True.intro
      · refine Or.inr ⟨ret, returned, ?_⟩
        have lacks := ok r hr leads
        rw [asked] at lacks
        rw [code]
        rintro id' - x hx r' - p hp ⟨k, hk, -⟩
        obtain rfl : (h, s) = x := Option.some.inj hx
        obtain ⟨call', hc', past⟩ := Cluster.submitted_pastSubmit run hk
        rw [lacks missing p hp call' hc'] at past
        cases past

theorem verdictsAgree {call : AdminCall}
    (run : Run (step listens) (launch servers config known call) h s)
    (ok : Meets (Informed listens config) h) : VerdictsAgree listens config h s := by
  have judged : Judged listens config h s := by
    induction run with
    | start =>
        cases call with
        | addServer param => exact .quiet (Or.inl rfl)
        | removeServer id => exact .quiet (Or.inr (Or.inl rfl))
    | @next h s s' a before hs ih =>
        have clusterRun := cluster_run before
        have tracks := Cluster.tracks clusterRun (Informed.awaitsOwn ok.tail)
        have bare := Cluster.bare clusterRun
        have judged := ih ok.tail
        cases Transition.of_step hs with
        | cluster a c hc => exact judged.clusterStep tracks bare hc (by simp) rfl rfl
        | ping answered _ => exact .quiet (Or.inr (s.admin.pinged_stage answered))
        | serve r c _ hr hc => exact .serve clusterRun ok.head hr hc rfl rfl
        | serveLost addr r c _ hc => exact judged.clusterStep tracks bare hc (by simp) rfl rfl
        | fail lost => exact .quiet (Or.inr s.admin.noValue_stage)
        | value r j call ret a stage hc returned value =>
            exact judged.value stage hc returned value
  refine ⟨fun code stage => ?_, fun id asked stage => ?_⟩
  · obtain ⟨verdict, right⟩ := judged.returned true code stage
    rcases verdict rfl with rfl | rfl
    · exact right _ rfl
    · exact right _ rfl
  · exact (judged.returned false _ stage).2 _ rfl id asked

/-- The servers of a map listen at their addresses. -/
def listeners (servers : IntMap ServerInfo) (addr : String) : Option Int :=
  servers.keys.find? fun i => Admin.raftAddr (servers.subscript i .zero).1 = addr

/-- Three servers at addresses of their own. -/
def fromZero : IntMap ServerInfo :=
  [(0, "10.10.1.1"), (1, "10.10.1.2"), (2, "10.10.1.3")].foldr
    (fun p m => m.insert p.1 ⟨p.1, p.2, 8080, 9090, ""⟩) ∅

def zeroElected : List Action :=
  [.electionTick 0 10 5, .voteSend 0 0, .voteDeliver 0 0 11, .voteReturn 0 0 ⟨1, true⟩ 12]

/-- The first call of server 0 removes a server, and the entry is committed. -/
def committedRemoval : List Action :=
  [.callStep 0 0 0, .callStep 0 0 0] ++ List.replicate 6 (.raftImpl 0) ++
    [.appendSend 0 0 0, .appendDeliver 0 0 20, .appendResume 1 0, .appendResume 1 0,
      .appendReturn 0 0 ⟨1, true⟩ 21]

def answeredRemoval : List AdminAction :=
  zeroElected.map .cluster ++ [.serve] ++ committedRemoval.map .cluster ++
    [.cluster (.callStep 0 0 30), .value]

theorem verdictsAgree_answeredRemoval :
    (outcome (step (listeners fromZero)) (launch fromZero.keys (fun _ => fromZero) fromZero
      (.removeServer 2)) answeredRemoval).2.admin.stage = .returned true (some .ok) ∧
    VerdictsAgree (listeners fromZero) (fun _ => fromZero)
      (outcome (step (listeners fromZero)) (launch fromZero.keys (fun _ => fromZero) fromZero
        (.removeServer 2)) answeredRemoval).1
      (outcome (step (listeners fromZero)) (launch fromZero.keys (fun _ => fromZero) fromZero
        (.removeServer 2)) answeredRemoval).2 :=
  ⟨by decide +kernel, verdictsAgree (outcome_run _ _ _) (by decide +kernel)⟩

/-- The reply is lost. Server 1 sends the administrator back to server 0, which no longer
finds the server it has removed. -/
def lostReply : List AdminAction :=
  zeroElected.map .cluster ++ [.serve] ++ committedRemoval.map .cluster ++
    [.fail, .serve, .value, .serve, .value]

theorem not_verdictsAgree : ¬ ∀ (listens : String → Option Int) (servers : List Int)
    (config : Int → IntMap ServerInfo) (known : IntMap ServerInfo) (call : AdminCall)
    (h : List (Administration × AdminAction)) (s : Administration),
    Run (step listens) (launch servers config known call) h s →
      VerdictsAgree listens config h s := by
  intro always
  have agree := always _ _ _ _ _ _ _ (outcome_run (step (listeners fromZero))
    (launch fromZero.keys (fun _ => fromZero) fromZero (.removeServer 2)) lostReply)
  obtain ⟨x, hx, addr, attempt, ticket, appended, commands, terms⟩ :
      ∃ x ∈ lastServed (outcome (step (listeners fromZero)) (launch fromZero.keys
          (fun _ => fromZero) fromZero (.removeServer 2)) lostReply).1,
        listeners fromZero x.2.admin.client = some 0 ∧ (0, 0) ∈ x.2.attempts ∧
        Cluster.submitted 0 0 (clusterHistory (listeners fromZero) x.1) = some 6 ∧
        Cluster.Appended 0 6 0 1 (clusterHistory (listeners fromZero) x.1) x.2.cluster ∧
        (x.2.cluster.node 0).state.logs.items.map (·.op.command) = [.removeServer 2] ∧
        (x.2.cluster.node 0).state.logs.items.map LogEntry.term = [1] := by
    decide +kernel
  obtain ⟨e, items, command⟩ := List.map_eq_singleton_iff.mp commands
  have term : e.term = 1 := by simpa [items] using terms
  have member : (2 : Int) ∈ fromZero := by decide
  refine agree.notFound 2 (by decide +kernel) (by decide +kernel) x hx 0 addr (0, 0) attempt
    ⟨6, ticket, 0, e, by rw [items]; rfl, term ▸ appended, member, fun m later => ?_⟩
  rw [items, List.take_of_length_le (by exact later)]
  simp only [configOf, List.foldl_cons, List.foldl_nil, command]
  decide

end Administration
end OhMyDb
