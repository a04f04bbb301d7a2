import OhMyDb.Membership.Peers

/-!
The configuration a log describes, and that each replica uses the one its own log
does. Entries change the configuration when they are appended; truncating the log
and reading it from disk do not.
-/

namespace OhMyDb
open Execution

/-- The initial configuration with the changes of the log, in order. -/
def configOf (config : IntMap ServerInfo) (items : List LogEntry) : IntMap ServerInfo :=
  items.foldl (fun config e => e.op.command.configure config) config

/-- The index of the last configuration entry, or -1. -/
def lastConfigIndex (items : List LogEntry) : Int :=
  match (items.zipIdx.filter fun p => p.1.op.command.isConfig).getLast? with
  | some p => p.2
  | none => -1

theorem configOf_append (config : IntMap ServerInfo) (items : List LogEntry) (e : LogEntry) :
    configOf config (items ++ [e]) = e.op.command.configure (configOf config items) := by
  simp [configOf]

theorem lastConfigIndex_append (items : List LogEntry) (e : LogEntry) :
    lastConfigIndex (items ++ [e]) =
      if e.op.command.isConfig = true then (items.length : Int) else lastConfigIndex items := by
  unfold lastConfigIndex
  rw [List.zipIdx_append, List.filter_append]
  by_cases h : e.op.command.isConfig = true
  · simp [h]
  · simp [h]

/-- Entries that do not change the configuration can be left out. -/
theorem configOf_drop (config : IntMap ServerInfo) {es : List LogEntry}
    (plain : ∀ e ∈ es, e.op.command.isConfig = false) (items : List LogEntry) :
    configOf config (items ++ es) = configOf config items ∧
      lastConfigIndex (items ++ es) = lastConfigIndex items := by
  induction es generalizing items with
  | nil => simp
  | cons e es ih =>
      have here := plain e List.mem_cons_self
      obtain ⟨config_, last⟩ := ih (fun x hx => plain x (List.mem_cons_of_mem _ hx)) (items ++ [e])
      rw [List.append_cons, config_, last, configOf_append, lastConfigIndex_append, here]
      refine ⟨?_, rfl⟩
      cases h : e.op.command with
      | addServer | removeServer => simp [h, Command.isConfig] at here
      | _ => rfl

namespace Replica
variable {config : IntMap ServerInfo} {r r' : Replica}

/-- The configuration is the one the log describes. -/
structure FollowsLog (config : IntMap ServerInfo) (r : Replica) : Prop where
  clusterConfig : r.state.clusterConfig = configOf config r.state.logs.items
  last : r.state.lastConfigChangeIndex = lastConfigIndex r.state.logs.items

theorem FollowsLog.append (h : r.FollowsLog config) (e : LogEntry) :
    (r.append e).FollowsLog config where
  clusterConfig := by
    rw [Replica.append, LogVector.pushBack_items, configOf_append, h.clusterConfig]
  last := by
    rw [Replica.append, LogVector.pushBack_items, lastConfigIndex_append, h.last]
    rfl

/-- No change of the configuration is cut off, and the address is asked for while the
leader is a member. -/
def Rules.configured : Rules where
  cut r n := ∀ e ∈ r.state.logs.items.drop n, e.op.command.isConfig = false
  address s := s.lastKnownLeaderId ∈ s.clusterConfig

theorem FollowsLog.change (h : r.FollowsLog config) (ch : Change .configured r r') :
    r'.FollowsLog config := by
  have persisted : r.persistLogs.state.logs.items = r.state.logs.items := LogVector.persist_items _
  cases ch with
  | address known => exact ⟨(IntMap.subscript_of_mem known).trans h.clusterConfig, h.last⟩
  | push saved op rest _ _ => exact ⟨(h.append _).clusterConfig, (h.append _).last⟩
  | follow hs x e rest _ _ _ _ _ => exact ⟨(h.append _).clusterConfig, (h.append _).last⟩
  | update saved u rest _ _ => cases u <;> exact ⟨h.clusterConfig, h.last⟩
  | updateHandler j x u _ _ _ => cases u <;> exact ⟨h.clusterConfig, h.last⟩
  | finish saved _ => exact ⟨persisted ▸ h.clusterConfig, persisted ▸ h.last⟩
  | leave hs x _ _ _ => exact ⟨persisted ▸ h.clusterConfig, persisted ▸ h.last⟩
  | cut n plain =>
      have items : (r.truncate n).state.logs.items = r.state.logs.items.take n :=
        LogVector.resize_items _ _
      obtain ⟨same, last⟩ := configOf_drop config plain (r.state.logs.items.take n)
      rw [List.take_append_drop] at same last
      refine ⟨?_, ?_⟩
      · rw [items, ← same]
        exact h.clusterConfig
      · rw [items, ← last]
        exact h.last
  | _ => exact ⟨h.clusterConfig, h.last⟩

theorem FollowsLog.addPeers (h : r.FollowsLog config) (ps : List Int) :
    (ps.foldl addPeer r).FollowsLog config := by
  induction ps generalizing r with
  | nil => exact h
  | cons p ps ih => exact ih ⟨h.clusterConfig, h.last⟩

theorem FollowsLog.initialise (id : Int) (config : IntMap ServerInfo) :
    (initialise id config).FollowsLog config :=
  FollowsLog.addPeers (by exact ⟨rfl, rfl⟩) _

theorem FollowsLog.restart (plain : ∀ e ∈ r.state.logs.file, e.op.command.isConfig = false) :
    (r.restart config).FollowsLog config := by
  obtain ⟨same, last⟩ := configOf_drop config plain []
  exact FollowsLog.addPeers (by exact ⟨same.symm, last.symm⟩) _

end Replica

namespace Cluster
variable {config : Int → IntMap ServerInfo} {c : Cluster}

/-- In every replica `ClusterConfig` is its initial configuration with the changes of
its log, and `LastConfigChangeIndex` is the index of the last of them. -/
def MembershipOfLog (config : Int → IntMap ServerInfo) (c : Cluster) : Prop :=
  ∀ r, (c.node r).state.clusterConfig = configOf (config r) (c.node r).state.logs.items ∧
    (c.node r).state.lastConfigChangeIndex = lastConfigIndex (c.node r).state.logs.items

/-- No configuration entry is cut off a log, none is found on disk by a restart, and the
address of the leader is asked for only while that is in the configuration. -/
def KeepsChanges (c : Cluster) : Incident → Prop
  | .step a => c.AsksMember a ∧ match a with
    | .appendDeliver r k now => ∀ t ∈ (c.node r).appendThreads[k]?, ∀ args ∈ t.args,
        ∀ n ∈ (c.node t.peer).cut args now, ∀ e ∈ (c.node t.peer).state.logs.items.drop n,
          e.op.command.isConfig = false
    | _ => True
  | .restart r => ∀ e ∈ (c.node r).state.logs.file, e.op.command.isConfig = false

instance (c : Cluster) (i : Incident) : Decidable (c.KeepsChanges i) :=
  match i with
  | .step (.appendDeliver _ _ _) => inferInstanceAs (Decidable (_ ∧ ∀ _, _ → _))
  | .restart _ => inferInstanceAs (Decidable (∀ _, _ → _))
  | .step (.electionTick _ _ _) | .step (.voteSend _ _) | .step (.voteDeliver _ _ _)
  | .step (.voteReturn _ _ _ _) | .step (.voteFail _ _) | .step (.raftImpl _)
  | .step (.appendSend _ _ _) | .step (.appendResume _ _) | .step (.appendReturn _ _ _ _)
  | .step (.appendFail _ _) | .step (.executer _ _) | .step (.clientGet _ _)
  | .step (.clientPut _ _ _) | .step (.addServer _ _) | .step (.removeServer _ _)
  | .step (.callStep _ _ _) => inferInstanceAs (Decidable (_ ∧ True))

theorem KeepsChanges.abides {a : Action} (ok : c.KeepsChanges (.step a)) :
    c.Abides .configured a := by
  obtain ⟨asks, cuts⟩ := ok
  cases a with
  | appendDeliver r k now =>
      refine ⟨True.intro, fun t ht args ha n hn => ⟨?_, fun _ _ => True.intro⟩⟩
      simpa only [Replica.Rules.configured, Replica.observeLeader_logs] using cuts t ht args ha n hn
  | raftImpl r => exact ⟨True.intro, fun _ => True.intro, fun _ _ _ _ => True.intro⟩
  | appendResume p j => exact fun _ _ => ⟨fun _ _ => True.intro, fun _ _ _ => True.intro⟩
  | addServer r args => exact asks
  | removeServer r serverId => exact asks
  | callStep r j now =>
      exact fun call hc => ⟨True.intro, asks call hc, fun _ => True.intro⟩
  | executer r ok => exact fun _ _ => True.intro
  | voteReturn r k reply now => exact ⟨True.intro, fun _ => True.intro⟩
  | _ => exact True.intro

theorem membershipOfLog {servers : List Int} {h : List (Cluster × Incident)}
    (run : Run (proceed config) (launch servers config) h c) (ok : Meets KeepsChanges h) :
    MembershipOfLog config c := by
  suffices inv : ∀ q, (c.node q).Bare ∧ (c.node q).FollowsLog (config q) from
    fun r => ⟨(inv r).2.clusterConfig, (inv r).2.last⟩
  refine run.stateInvariant (I := fun c => ∀ q, (c.node q).Bare ∧ (c.node q).FollowsLog (config q))
    ok (fun q => ⟨initialise_bare q (config q), .initialise q (config q)⟩) ?_
  intro c i c' hi ok hs q
  cases i with
  | step a =>
      have moved := (Transition.of_step hs).2.changes (fun q => (hi q).1) ok.abides q
      exact ⟨(hi q).1.changes moved,
        Replica.Changes.preserves moved (fun _ _ => Replica.FollowsLog.change) (hi q).2⟩
  | restart r =>
      obtain ⟨_, rfl⟩ := Option.ite_none_right_eq_some.mp hs |>.imp_right Option.some.inj
      by_cases e : q = r
      · subst e
        simpa using ⟨(hi q).1.restart (config q), Replica.FollowsLog.restart ok⟩
      · simpa only [set_node, Function.update_of_ne e] using hi q

/-- Server 1 adds server 4, and server 3 is killed and started again. -/
def addAndRestart : List Incident := (plainElection ++ addFourth 1).map .step ++ [.restart 3]

theorem membershipOfLog_addAndRestart :
    ((outcome (proceed fun _ => threeServers) (fixed threeServers)
      addAndRestart).2.node 1).state.clusterConfig.keys = [4, 1, 2, 3] ∧
    MembershipOfLog (fun _ => threeServers)
      (outcome (proceed fun _ => threeServers) (fixed threeServers) addAndRestart).2 :=
  ⟨by decide +kernel, @membershipOfLog _ _ threeServers.keys _ (outcome_run _ _ _)
    (by decide +kernel)⟩

/-- Server 1 adds server 4 and tells no one. Server 3 is elected for term 2, and its
PUT takes the place of that entry. -/
def overwrittenAdd : List Action :=
  plainElection ++ addFourth 1 ++
    [.electionTick 3 50 5, .voteSend 3 0, .voteDeliver 3 0 51, .voteReturn 3 0 ⟨2, true⟩ 52] ++
    submitPut 3 6 8 ++ [.appendSend 3 1 0, .appendDeliver 3 1 60]

/-- Server 4 remains a member for server 1, whose log does not know of it. -/
theorem not_membershipOfLog : ¬ ∀ (servers : List Int) (config : Int → IntMap ServerInfo)
    (h : List (Cluster × Incident)) (c : Cluster),
    Run (proceed config) (launch servers config) h c → MembershipOfLog config c := by
  intro always
  have last : ((outcome (proceed fun _ => threeServers) (fixed threeServers)
      (overwrittenAdd.map .step)).2.node 1).state.lastConfigChangeIndex = 0 := by
    decide +kernel
  have log : lastConfigIndex ((outcome (proceed fun _ => threeServers) (fixed threeServers)
      (overwrittenAdd.map .step)).2.node 1).state.logs.items = -1 := by
    decide +kernel
  have same := (always threeServers.keys (fun _ => threeServers) _ _
    (outcome_run (proceed fun _ => threeServers) (fixed threeServers)
      (overwrittenAdd.map .step)) 1).2
  rw [last, log] at same
  exact absurd same (by decide)

end Cluster
end OhMyDb
