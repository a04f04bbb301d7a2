import Mathlib.Data.Set.Card
import OhMyDb.Db.Custody
import OhMyDb.Db.Origins

/-!
How often a PUT of a client is executed. `ReplicatedDB::put` repeats a request that has
failed, and a server that has accepted the first one knows nothing of it. Every operation
is followed from the call it was made for to the positions it takes in the logs.
-/

namespace OhMyDb
open Execution

/-- An RPC of `ReplicatedDB::put`: the server that has got it with its call there, and
what the client has got. -/
structure Attempt where
  served : Option (Int × Call) := none
  rpc : Option PutResponse := none

namespace Attempt

/-- The RPC fails before the request arrives, or afterwards, or it is answered. -/
inductive Made (c : Cluster) (key value : Int) : Attempt → Prop where
  | unreached : Made c key value {}
  | failed (r : Int) (call : Call) (op : RaftOp) (it : Handle) : call ∈ (c.node r).calls →
      call.submission = some (op, it) → op.command = .put key value →
      Made c key value { served := some (r, call) }
  | answered (r : Int) (op : RaftOp) (it : Handle) (ret : Ret) :
      .returned op it ret ∈ (c.node r).calls → op.command = .put key value →
      Made c key value
        { served := some (r, .returned op it ret), rpc := some (OhMyDBService.put ret) }

def origin (a : Attempt) : Option Origin :=
  a.served.bind fun p => p.2.submission.map fun s => (p.1, s.2)

/-- The server has queued the operation. -/
def accepted (a : Attempt) : Bool :=
  (a.served.bind fun p => p.2.accepted).isSome

/-- The server has queued the operation, and the client has got no reply. -/
def lost (a : Attempt) : Bool :=
  a.accepted && a.rpc.isNone

end Attempt

/-- A call of `ReplicatedDB::put` with all the RPCs it has made. -/
structure PutCall (c : Cluster) (db : ReplicatedDB) (key value : Int) (attempts : List Attempt) :
    Prop where
  made : ∀ a ∈ attempts, a.Made c key value
  loop : ∀ n < attempts.length, (db.put ((attempts.map Attempt.rpc).take n)).1 = none

/-- The positions of the log at which a PUT of the call has been executed. -/
def executions (g : Tags) (key value : Int) (attempts : List Attempt) : Set ℕ :=
  {i | ∃ q op, op.command = .put key value ∧ ∃ a ∈ attempts, ∃ o, a.origin = some o ∧
    (i, op, some o) ∈ g.executed q}

/-! The retry loop. -/

/-- A loop that goes on has had no reply but `NOT_LEADER`. -/
theorem ReplicatedDB.putLoop_waiting {iters backupID : ℕ} {db : ReplicatedDB}
    {rpcs : List (Option PutResponse)} (h : (putLoop iters backupID db rpcs).1 = none) :
    ∀ response, some response ∈ rpcs → response.errorCode = .notLeader := by
  induction iters, backupID, db, rpcs using putLoop.induct with
  | case1 _ db rpcs => cases h
  | case2 iters backupID db => exact fun _ mem => absurd mem List.not_mem_nil
  | case3 iters backupID db rpc rpcs failed ih =>
      rw [putLoop, failed] at h
      intro response mem
      rcases List.mem_cons.mp mem with rfl | mem
      · cases failed
      · exact ih h response mem
  | case4 iters backupID db rpc rpcs ret got refused ih =>
      rw [putLoop, got] at h
      simp only [refused] at h
      intro response mem
      rcases List.mem_cons.mp mem with rfl | mem
      · cases got
        exact refused
      · exact ih h response mem
  | case5 iters backupID db rpc rpcs ret got code =>
      rw [putLoop, got] at h
      simp only [code] at h
      cases h
  | case6 iters backupID db rpc rpcs ret got code =>
      rw [putLoop, got] at h
      simp only [code] at h
      cases h

namespace PutCall
variable {c : Cluster} {db : ReplicatedDB} {key value : Int} {attempts : List Attempt}

/-- A reply that is not `NOT_LEADER` ends the loop, so the accepted RPCs but one are lost. -/
theorem accepted_le (h : PutCall c db key value attempts) :
    attempts.countP Attempt.accepted ≤ attempts.countP Attempt.lost + 1 := by
  rcases List.eq_nil_or_concat' attempts with rfl | ⟨before, last, rfl⟩
  · exact Nat.zero_le _
  have waiting := h.loop before.length (by simp)
  rw [List.map_append, List.take_left' (List.length_map _)] at waiting
  have unanswered := ReplicatedDB.putLoop_waiting waiting
  have early : before.countP Attempt.accepted ≤ before.countP Attempt.lost := by
    refine List.countP_mono_left fun a mem accepted => ?_
    cases h.made a (List.mem_append_left _ mem) with
    | unreached => cases accepted
    | failed r call op it _ _ _ => simpa [Attempt.lost] using accepted
    | answered r op it ret _ _ =>
        have refused : ret.errorCode = .notLeader :=
          unanswered _ (List.mem_map.mpr ⟨_, mem, rfl⟩)
        simp [Attempt.accepted, Call.accepted, refused] at accepted
  have one : [last].countP Attempt.accepted ≤ 1 := List.countP_le_length
  rw [List.countP_append, List.countP_append]
  omega

end PutCall

theorem Call.accepted_of_unqueued {call : Call} {op : RaftOp} {it : Handle}
    (sub : call.submission = some (op, it)) (queued : call.unqueued = none) :
    call.accepted = some (op, it) := by
  cases call with
  | submitting | queueing | refused => cases queued
  | waiting => exact sub
  | returned op' it' ret =>
      simp only [Call.unqueued, Call.accepted] at queued ⊢
      split at queued
      · cases queued
      · next ok => exact (if_neg ok).trans sub
  | _ => cases sub

namespace Cluster
variable {config : IntMap ServerInfo} {h : List (Cluster × Action)} {c : Cluster}
  {db : ReplicatedDB} {key value : Int} {attempts : List Attempt}

/-- Every RPC that a server has accepted is executed at one position at most, and the
others at none. -/
theorem oncePerAcceptance (f : FixedRun config h c) (call : PutCall c db key value attempts) :
    (executions (tags h c) key value attempts).encard ≤ attempts.countP Attempt.accepted ∧
      attempts.countP Attempt.accepted ≤ attempts.countP Attempt.lost + 1 := by
  refine ⟨?_, call.accepted_le⟩
  obtain ⟨place, traced⟩ := traced f
  let positions : List ℕ := (attempts.filter Attempt.accepted).filterMap fun a =>
    (a.origin.bind place).map Prod.fst
  have inside : executions (tags h c) key value attempts ⊆ ↑positions.toFinset := by
    rintro i ⟨q, op, put, a, mem, o, own, executed⟩
    have at_ := traced.position executed
    refine List.mem_toFinset.mpr (List.mem_filterMap.mpr ⟨a, List.mem_filter.mpr ⟨mem, ?_⟩, ?_⟩)
    · obtain ⟨⟨r, call'⟩, served, sub⟩ := Option.bind_eq_some_iff.mp own
      obtain ⟨⟨op', it⟩, known, rfl⟩ := Option.map_eq_some_iff.mp sub
      have there : call' ∈ (c.node r).calls := by
        cases call.made a mem with
        | unreached => cases served
        | failed r call' op it there _ _ =>
            cases served
            exact there
        | answered r op it ret there _ =>
            cases served
            exact there
      have accepted := Call.accepted_of_unqueued known (traced.queued executed there known)
      simp [Attempt.accepted, served, accepted]
    · rw [own, Option.bind_some, at_]
      rfl
  refine (Set.encard_le_encard inside).trans ?_
  rw [Set.encard_coe_eq_coe_finsetCard, List.countP_eq_length_filter]
  exact_mod_cast (List.toFinset_card_le _).trans (List.length_filterMap_le _ _)

theorem oncePerAcceptance_answeredPut : ∃ attempts,
    attempts.countP Attempt.accepted = 1 ∧
    0 ∈ executions (tags (outcome step (fixed threeServers) answeredPut).1
      (outcome step (fixed threeServers) answeredPut).2) 5 7 attempts ∧
    (executions (tags (outcome step (fixed threeServers) answeredPut).1
      (outcome step (fixed threeServers) answeredPut).2) 5 7 attempts).encard ≤
        attempts.countP Attempt.accepted ∧
    attempts.countP Attempt.accepted ≤ attempts.countP Attempt.lost + 1 := by
  have verdict : ((outcome step (fixed threeServers) answeredPut).2.node 1).calls[0]?.bind
      Call.verdict = some (.put 5 7, .ok) := by decide +kernel
  have asked : ((outcome step (fixed threeServers) answeredPut).2.node 1).calls[0]?.bind
      Call.submission = some (⟨.put 5 7, some 0⟩, 0) := by decide +kernel
  have executed : (0, ⟨.put 5 7, some 0⟩, some (1, 0)) ∈
      (tags (outcome step (fixed threeServers) answeredPut).1
        (outcome step (fixed threeServers) answeredPut).2).executed 1 := by decide +kernel
  obtain ⟨call, at_, returned⟩ := Option.bind_eq_some_iff.mp verdict
  obtain ⟨op, it, ret, rfl, put, ok⟩ := Call.verdict_eq returned
  rw [at_] at asked
  cases asked
  let attempt : Attempt :=
    { served := some (1, .returned ⟨.put 5 7, some 0⟩ 0 ret), rpc := some (OhMyDBService.put ret) }
  have made : attempt.Made (outcome step (fixed threeServers) answeredPut).2 5 7 :=
    .answered 1 _ 0 ret (List.mem_of_getElem? at_) put
  have putCall : PutCall (outcome step (fixed threeServers) answeredPut).2 (.create threeServers)
      5 7 [attempt] :=
    ⟨fun a mem => List.mem_singleton.mp mem ▸ made, fun n lt => by
      obtain rfl : n = 0 := Nat.lt_one_iff.mp lt
      rfl⟩
  exact ⟨[attempt], by simp [attempt, Attempt.accepted, Call.accepted, ok],
    ⟨1, _, put, attempt, List.mem_singleton_self _, (1, 0), rfl, executed⟩,
    oncePerAcceptance (fixedRun_outcome _ _ (by decide +kernel)) putCall⟩

/-- The reply to the first PUT of 7 is lost after server 1 has queued it. Another client
writes 8, and is told so, before the first one tries again. -/
def retriedPut : List Action :=
  plainElection ++
    [.clientPut 1 5 7, .callStep 1 0 0, .callStep 1 0 0, .clientPut 1 5 8, .callStep 1 1 0,
      .callStep 1 1 0] ++ List.replicate 4 (.raftImpl 1) ++
    [.appendSend 1 0 0, .appendDeliver 1 0 20, .appendReturn 1 0 ⟨1, true⟩ 21,
      .executer 1 true, .executer 1 true, .executer 1 true, .callStep 1 1 22,
      .clientPut 1 5 7, .callStep 1 2 30, .callStep 1 2 30] ++ List.replicate 5 (.raftImpl 1) ++
    [.appendSend 1 2 0, .appendDeliver 1 2 40, .appendReturn 1 2 ⟨1, true⟩ 41,
      .executer 1 true, .executer 1 true, .callStep 1 2 42]

theorem not_oncePerCall : ¬ ∀ (config : IntMap ServerInfo) (h : List (Cluster × Action))
    (c : Cluster) (db : ReplicatedDB) (key value : Int) (attempts : List Attempt),
    FixedRun config h c → PutCall c db key value attempts →
      (executions (tags h c) key value attempts).encard ≤ 1 := by
  intro once
  have first : ((outcome step (fixed threeServers) retriedPut).2.node 1).calls[0]?.bind
      Call.submission = some (⟨.put 5 7, some 0⟩, 0) := by decide +kernel
  have second : ((outcome step (fixed threeServers) retriedPut).2.node 1).calls[2]?.bind
      Call.submission = some (⟨.put 5 7, some 2⟩, 2) := by decide +kernel
  have verdict : ((outcome step (fixed threeServers) retriedPut).2.node 1).calls[2]?.bind
      Call.verdict = some (.put 5 7, .ok) := by decide +kernel
  have executed : (0, ⟨.put 5 7, some 0⟩, some (1, 0)) ∈
        (tags (outcome step (fixed threeServers) retriedPut).1
          (outcome step (fixed threeServers) retriedPut).2).executed 1 ∧
      (2, ⟨.put 5 7, some 2⟩, some (1, 2)) ∈
        (tags (outcome step (fixed threeServers) retriedPut).1
          (outcome step (fixed threeServers) retriedPut).2).executed 1 := by decide +kernel
  obtain ⟨lost, at_, own⟩ := Option.bind_eq_some_iff.mp first
  obtain ⟨call, at_', returned⟩ := Option.bind_eq_some_iff.mp verdict
  obtain ⟨op, it, ret, rfl, put, _⟩ := Call.verdict_eq returned
  rw [at_'] at second
  cases second
  let failed : Attempt := { served := some (1, lost) }
  let repeated : Attempt :=
    { served := some (1, .returned ⟨.put 5 7, some 2⟩ 2 ret), rpc := some (OhMyDBService.put ret) }
  have putCall : PutCall (outcome step (fixed threeServers) retriedPut).2 (.create threeServers)
      5 7 [failed, repeated] := by
    refine ⟨fun a mem => ?_, fun n lt => ?_⟩
    · rcases List.mem_pair.mp mem with rfl | rfl
      · exact .failed 1 lost _ _ (List.mem_of_getElem? at_) own rfl
      · exact .answered 1 _ _ ret (List.mem_of_getElem? at_') put
    · match n, lt with
      | 0, _ => rfl
      | 1, _ => rfl
  have both := once _ _ _ _ _ _ _ (fixedRun_outcome _ _ (by decide +kernel)) putCall
  have at_zero : 0 ∈ executions (tags (outcome step (fixed threeServers) retriedPut).1
      (outcome step (fixed threeServers) retriedPut).2) 5 7 [failed, repeated] :=
    ⟨1, _, rfl, failed, List.mem_cons_self, (1, 0), by simp [Attempt.origin, failed, own],
      executed.1⟩
  have at_two : 2 ∈ executions (tags (outcome step (fixed threeServers) retriedPut).1
      (outcome step (fixed threeServers) retriedPut).2) 5 7 [failed, repeated] :=
    ⟨1, _, rfl, repeated, List.mem_cons_of_mem _ List.mem_cons_self, (1, 2), rfl, executed.2⟩
  exact absurd (Set.encard_le_one_iff.mp both 0 2 at_zero at_two) (by decide)

end Cluster
end OhMyDb
