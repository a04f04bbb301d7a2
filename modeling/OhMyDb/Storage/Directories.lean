import OhMyDb.Storage.Votes

/-!
Replicas over the directories they store in. Whatever a replica does, and wherever its
process is killed, the two values a new process would load are those of this one,
whenever it does not hold the mutex.
-/

namespace OhMyDb
open Function (update)
open Execution

namespace PersistentStore
variable {base : String}

/-- Whatever the files held before. -/
theorem Holds.persisted (base : String) (p : PersistentStore) (d : Directory) :
    Holds base p ((PersistentStore.persist base p).foldl FileOp.run d) := by
  have store_done (key : String) (val : Int) (d : Directory) :
      (store base key val).foldl FileOp.run d (getFilename base key) = some (some val) ∧
        ∀ name, name ≠ getFilename base key → name ≠ getFilename base key ++ ".tmp" →
          (store base key val).foldl FileOp.run d name = d name :=
    store_take base key val 3 d
  rw [PersistentStore.persist, List.foldl_append]
  constructor
  · rw [(store_done _ _ _).2 _ votedFor_ne_currentTerm (getFilename_ne _ _ _ (by decide))]
    exact (store_done _ _ _).1
  · exact (store_done _ _ _).1

/-- What the last of some calls has stored is what is loaded. -/
theorem bootstrap_persists (ps : List PersistentStore) (d : Directory) :
    bootstrap base ((ps.flatMap (persist base)).foldl FileOp.run d) =
      ps.getLast?.getD (bootstrap base d) := by
  rcases List.eq_nil_or_concat ps with rfl | ⟨ps, p, rfl⟩
  · rfl
  · rw [List.concat_eq_append, List.flatMap_append, List.foldl_append, List.getLast?_concat,
      List.flatMap_singleton, Option.getD_some]
    exact (Holds.persisted base p _).bootstrap

end PersistentStore

namespace Replica
variable {r r' : Replica}

def bootstrapSaves (withBootstrap : Bool) : List PersistentStore :=
  if withBootstrap = true then [] else [(RaftState.persist {}).pStore]

/-- The first launch is made of these, -/
theorem initialise_eq (id : Int) (config : IntMap ServerInfo) (p : PersistentStore)
    (file : List LogEntry) : initialise id config =
      (config.keys.filter (· ≠ id)).foldl addPeer
        ((bootstrap { id := id } false p file).setClusterConfig config) := rfl

/-- and so is every other one. -/
theorem restart_eq (r : Replica) (p : PersistentStore) (file : List LogEntry)
    (config : IntMap ServerInfo) : (r.killed p file).restart config =
      (config.keys.filter (· ≠ r.id)).foldl addPeer
        ((r.bootstrap true p file).setClusterConfig config) := rfl

theorem bootstrap_leaves (r : Replica) (withBootstrap : Bool) (p : PersistentStore)
    (file : List LogEntry) : (bootstrapSaves withBootstrap).getLast?.getD p =
      (r.bootstrap withBootstrap p file).state.pStore := by
  cases withBootstrap <;> rfl

theorem Stored.bootstrap (r : Replica) (withBootstrap : Bool) (p : PersistentStore)
    (file : List LogEntry) : (r.bootstrap withBootstrap p file).Stored := by
  cases withBootstrap <;> rfl

/-- The last of some calls of `persist` leaves this in the files. -/
def Leaves (before : PersistentStore) (ps : List PersistentStore) (after : PersistentStore) :
    Prop :=
  ps.getLast?.getD before = after

theorem Leaves.of_all {before after : PersistentStore} {ps : List PersistentStore}
    (all : ∀ p ∈ ps, p = after) (none : ps = [] → before = after) : Leaves before ps after := by
  rcases List.eq_nil_or_concat ps with rfl | ⟨ps, p, rfl⟩
  · exact none rfl
  · rw [List.concat_eq_append] at all ⊢
    rw [Leaves, List.getLast?_concat]
    exact all p (List.mem_append_right _ (List.mem_singleton_self _))

theorem Leaves.ite {c : Prop} [Decidable c] {before after : PersistentStore}
    (none : ¬ c → before = after) : Leaves before (if c then [after] else []) after := by
  split
  · rfl
  · next no => exact none no

/-- A replica that has stored its vote need not do it again as long as the vote stays. -/
theorem Steady.leaves (h : Steady r r') (stored : r.Stored) : r.state.pStore = r'.state.pStore :=
  (stored.trans h.saved).trans (h.stored stored).symm

theorem updateSaves_leaves (h : Steady r r') (stored : r.Stored) (u : PeerUpdate) :
    Leaves r.state.pStore (updateSaves r'.state u) r'.state.pStore := by
  cases u with
  | addPeer => rfl
  | removePeer => exact h.leaves stored

theorem configSaves_leaves (h : Steady r r') (stored : r.Stored) (n : ℕ) :
    Leaves r.state.pStore (configSaves n r'.state) r'.state.pStore :=
  .of_all (fun _ mem => (List.mem_replicate.mp mem).2) fun _ => h.leaves stored

theorem electionTick_leaves (r : Replica) (now timeout : Int) :
    Leaves r.state.pStore
      (if r.state.role = .follower ∧ now - r.state.electionResetEvent > timeout then
        [(r.electionTick now timeout).state.pStore] else [])
      (r.electionTick now timeout).state.pStore :=
  .ite fun no => by rw [electionTick, if_neg no]

theorem requestVote_leaves (r : Replica) (args : RequestVoteParams) (now : Int) :
    Leaves r.state.pStore (r.requestVoteSaves args now)
      (r.requestVote args now).1.state.pStore := by
  unfold requestVoteSaves
  split
  · next stranger =>
    rw [requestVote, if_pos stranger]
    rfl
  · split <;> rfl

theorem voteReply_leaves (r : Replica) (saved : Int) (reply : RequestVoteRet) (now : Int) :
    Leaves r.state.pStore (r.voteReplySaves saved reply now)
      (r.voteReply saved reply now).state.pStore := by
  refine .ite fun still => ?_
  rcases r.voteReply_cases saved reply now with
    ⟨e, _⟩ | ⟨role, _, e⟩ | ⟨role, _, ⟨_, e⟩ | ⟨_, s, hs, e⟩⟩
  · rw [e]
  · exact absurd ⟨role, by rw [e]; exact nofun⟩ still
  · rw [e]
  · exact absurd ⟨role, by rw [e, hs]; exact nofun⟩ still

theorem appendEntries_leaves (stored : r.Stored) (args : AppendEntriesParams) (now : Int)
    (bare : ∀ e ∈ args.entries, e.op.promiseHandle = none) :
    Leaves r.state.pStore (r.appendEntriesSaves args now)
      (r.appendEntries args now).1.state.pStore := by
  have steady := r.appendEntries_steady args now bare
  have met := (r.meetLeader_keepsTerm args now).2 stored
  refine .of_all (fun p mem => ?_) fun none => ?_
  · rcases List.mem_append.mp mem with mem | mem
    · obtain ⟨⟨alive, _⟩, mem⟩ := List.mem_ite_nil_right.mp mem
      have left := steady.leaves met
      simp only [meetLeader, if_neg alive] at left
      exact (List.mem_singleton.mp mem).trans left
    · exact (List.mem_replicate.mp mem).2
  · have none := (List.append_eq_nil_iff.mp none).1
    have stays : (r.meetLeader args now).pStore = r.state.pStore := by
      by_cases dead : r.state.role = .dead
      · rw [meetLeader, if_pos dead]
      · by_cases same : args.term > r.state.currentTerm ∨
            (args.term = r.state.currentTerm ∧ r.state.role ≠ .follower)
        · rw [if_pos ⟨dead, same⟩] at none
          cases none
        · obtain ⟨later, again⟩ := not_or.mp same
          simp only [meetLeader, if_neg dead, observeLeader, if_neg later, if_neg again]
    exact stays.symm.trans (steady.leaves met)

theorem appendReply_leaves (stored : r.Stored) (id saved nextIndex : Int) (n : ℕ)
    (reply : AppendEntriesRet) (now : Int) :
    Leaves r.state.pStore
      (if reply.term > saved then [(r.appendReply id saved nextIndex n reply now).state.pStore]
        else [])
      (r.appendReply id saved nextIndex n reply now).state.pStore :=
  .ite fun no => (r.appendReply_steady id saved nextIndex n reply now no).leaves stored

end Replica

namespace Cluster
variable {c c' : Cluster} {a : Action} {q : Int}

/-- What the calls of `persist` in a step leave in the files is `pStore` after it. -/
theorem saves_leaves (hs : c.step a = some c') (bare : ∀ p, (c.node p).Bare)
    (stored : (c.node q).Stored) :
    Replica.Leaves (c.node q).state.pStore (saves q c a) (c'.node q).state.pStore := by
  have tr := (Transition.of_step hs).2
  have self (r : Int) (x : Replica) : (c.set r x).node r = x := Function.update_self _ _ _
  have still (abides : c.Abides .still a) : Replica.Steady (c.node q) (c'.node q) :=
    (tr.changes bare abides q).steady fun no => no
  simp only [saves, hs]
  have apart (ne : c.server a ≠ q) : (c'.node q).state = (c.node q).state := by
    obtain ⟨vs, as, same⟩ := tr.elsewhere (Ne.symm ne)
    rw [same]
  have elsewhere {p : Int} (ne : p ≠ q) {x : Replica} : (c.set p x).node q = c.node q :=
    Function.update_of_ne (Ne.symm ne) _ _
  have spared {p : Int} {ps : List PersistentStore} (here : p = q →
      Replica.Leaves (c.node q).state.pStore ps (c'.node q).state.pStore)
      (there : p ≠ q → (c'.node q).state = (c.node q).state) :
      Replica.Leaves (c.node q).state.pStore (if p = q then ps else [])
        (c'.node q).state.pStore := by
    split
    · next e => exact here e
    · next ne => exact congrArg RaftState.pStore (there ne).symm
  cases tr with
  | electionTick r now timeout =>
      by_cases e : r = q
      · subst e
        rw [self]
        simpa using (c.node r).electionTick_leaves now timeout
      · rw [elsewhere e]
        simp [e, Replica.Leaves]
  | voteDeliver r k now t args ht ha _ =>
      obtain ⟨peer, saved, _, replies, finished, received⟩ := t
      cases ha
      simp only [ht]
      refine spared (fun e => ?_) fun ne => ?_
      · subst e
        rw [pushVoteReply_state, self]
        exact (c.node peer).requestVote_leaves args now
      · rw [pushVoteReply_state, elsewhere ne]
  | voteReturn r k reply now t ht _ _ =>
      by_cases e : r = q
      · subst e
        simp only [ht, if_true, self]
        exact (c.node r).voteReply_leaves t.savedCurrentTerm reply now
      · rw [elsewhere e]
        dsimp only
        split <;> simp [e, Replica.Leaves]
  | raftImpl r =>
      refine spared (fun e => ?_) apart
      subst e
      have steady := still (by simp [Abides, Replica.Rules.still])
      split
      · exact Replica.updateSaves_leaves steady stored _
      · exact Replica.configSaves_leaves steady stored _
  | appendDeliver r k now t args ht ha _ =>
      obtain ⟨peer, saved, nextIndex, _, replies, finished⟩ := t
      cases ha
      simp only [ht]
      refine spared (fun e => ?_) fun ne => ?_
      · subst e
        rw [settleAppend_state, self]
        exact Replica.appendEntries_leaves stored args now
          ((bare r).threads _ (List.mem_of_getElem? ht) args rfl)
      · rw [settleAppend_state, elsewhere ne]
  | appendUpdate p j h peer hj hu | appendResume p j h hj hu =>
      have steady := still (by simp [Abides, Replica.Rules.still])
      dsimp only
      split
      · exact spared (fun _ => Replica.updateSaves_leaves steady stored _) apart
      · exact spared (fun _ => Replica.configSaves_leaves steady stored _) apart
  | appendReturn r k reply now t args ht _ _ _ =>
      by_cases e : r = q
      · subst e
        simp only [ht, true_and, self]
        exact Replica.appendReply_leaves stored t.peer t.savedCurrentTerm t.nextIndex
          args.entries.length reply now
      · rw [elsewhere e]
        dsimp only
        split <;> simp [e, Replica.Leaves]
  | callStep r j now call p hc hp =>
      by_cases e : r = q
      · subst e
        simp only [hc, true_and]
        refine .ite fun no => (still fun x hx => ?_).leaves stored
        obtain rfl : x = call := Option.some.inj (hx.symm.trans hc)
        exact ⟨True.intro, fun _ => True.intro, no⟩
      · rw [elsewhere e]
        dsimp only
        split <;> simp [e, Replica.Leaves]
  | appendSend r k junk t _ _ _ _ =>
      by_cases e : r = q
      · subst e
        rw [self]
        rfl
      · rw [elsewhere e]
        rfl
  | _ => exact (still (by simp [Abides, Replica.Rules.still])).leaves stored

end Cluster

/-- What is done under one acquisition of the mutex once `RaftManager::bootstrap` has
returned: a step, or one of the calls that prepare a replica. -/
inductive Locked where
  | step (a : Action)
  | setClusterConfig (r : Int) (config : IntMap ServerInfo)
  | addPeer (r peerId : Int)
  | removePeer (r peerId : Int)

namespace Locked
variable {c c' : Cluster} {x : Locked} {q : Int}

def act (c : Cluster) : Locked → Option Cluster
  | .step a => c.step a
  | .setClusterConfig r config => some (c.set r ((c.node r).setClusterConfig config))
  | .addPeer r peerId => some (c.set r ((c.node r).addPeer peerId))
  | .removePeer r peerId => some (c.set r ((c.node r).removePeer peerId))

def saves (q : Int) (c : Cluster) : Locked → List PersistentStore
  | .step a => Cluster.saves q c a
  | .setClusterConfig r config =>
      if r = q then [((c.node r).setClusterConfig config).state.pStore] else []
  | .addPeer r peerId => if r = q then [((c.node r).addPeer peerId).state.pStore] else []
  | .removePeer _ _ => []

theorem leaves (hx : x.act c = some c') (bare : ∀ p, (c.node p).Bare)
    (stored : (c.node q).Stored) :
    Replica.Leaves (c.node q).state.pStore (x.saves q c) (c'.node q).state.pStore := by
  cases x with
  | step a => exact Cluster.saves_leaves hx bare stored
  | setClusterConfig r config | addPeer r peerId =>
      obtain rfl := Option.some.inj hx
      by_cases e : r = q
      · subst e
        simp [saves, Replica.Leaves]
      · simp [saves, Replica.Leaves, e, Function.update_of_ne (Ne.symm e)]
  | removePeer r peerId =>
      obtain rfl := Option.some.inj hx
      by_cases e : r = q
      · subst e
        rw [Cluster.set_node, Function.update_self]
        rfl
      · rw [Cluster.set_node, Function.update_of_ne (Ne.symm e)]
        rfl

/-- Every path ends with what is in memory stored. -/
theorem stored (hx : x.act c = some c') (bare : ∀ p, (c.node p).Bare)
    (stored : (c.node q).Stored) : (c'.node q).Stored := by
  have set {r : Int} {y : Replica} (same : (c.node r).Stored → y.Stored) :
      ((c.set r y).node q).Stored := by
    refine Cluster.set_cases (P := fun y : Replica => y.Stored) (fun e => ?_) fun _ => stored
    exact same (e ▸ stored)
  cases x with
  | step a => exact ((Cluster.Transition.of_step hx).2.keepsTerm bare).2 stored
  | setClusterConfig r config | addPeer r peerId =>
      obtain rfl := Option.some.inj hx
      exact set fun _ => rfl
  | removePeer r peerId =>
      obtain rfl := Option.some.inj hx
      exact set fun stored => stored

theorem bare (hx : x.act c = some c') (bare : ∀ p, (c.node p).Bare) (q : Int) :
    (c'.node q).Bare := by
  have set {r : Int} {y : Replica} (same : (c.node r).Bare → y.Bare) :
      ((c.set r y).node q).Bare := Cluster.set_cases (fun _ => same (bare r)) fun _ => bare q
  cases x with
  | step a =>
      have tr := (Cluster.Transition.of_step hx).2
      exact (bare q).changes (tr.changes bare (c.abides_free a) q)
  | setClusterConfig r config | addPeer r peerId | removePeer r peerId =>
      obtain rfl := Option.some.inj hx
      exact set fun b => ⟨b.threads, b.handlers⟩

end Locked

/-- Replicas, and what is on the disks of their servers. -/
structure Hosts where
  cluster : Cluster
  directory : Int → Directory

/-- A process does something, or it is killed `n` file operations of its store into doing it
and the next one calls `RaftManager::bootstrap`. What its log file then holds is left open. -/
inductive Hosting where
  | locked (x : Locked)
  | bootstrap (r : Int) (x : Locked) (n : ℕ) (withBootstrap : Bool) (file : List LogEntry)

namespace Hosts
variable {storeDir : Int → String} {s s' : Hosts} {q : Int}

def storePrefix (storeDir : Int → String) (r : Int) : String := storeFilePrefix (storeDir r) r

def fileOps (storeDir : Int → String) (r : Int) (ps : List PersistentStore) : List FileOp :=
  ps.flatMap (PersistentStore.persist (storePrefix storeDir r))

/-- The two values `PersistentStore::load` yields at server `r`. -/
def loads (storeDir : Int → String) (s : Hosts) (r : Int) : PersistentStore :=
  PersistentStore.bootstrap (storePrefix storeDir r) (s.directory r)

/-- `RaftManager::bootstrap` at server `r`. -/
def bootstrap (storeDir : Int → String) (s : Hosts) (r : Int) (withBootstrap : Bool)
    (file : List LogEntry) : Hosts where
  cluster := s.cluster.set r
    ((s.cluster.node r).bootstrap withBootstrap (s.loads storeDir r) file)
  directory := update s.directory r
    ((fileOps storeDir r (Replica.bootstrapSaves withBootstrap)).foldl FileOp.run (s.directory r))

def step (storeDir : Int → String) (s : Hosts) : Hosting → Option Hosts
  | .locked x => (x.act s.cluster).map fun c =>
      { cluster := c
        directory := fun q =>
          (fileOps storeDir q (x.saves q s.cluster)).foldl FileOp.run (s.directory q) }
  | .bootstrap r x n withBootstrap file =>
      if r ∈ s.cluster.servers then
        let killed := ((fileOps storeDir r (x.saves r s.cluster)).take n).foldl FileOp.run
          (s.directory r)
        some ({ s with directory := update s.directory r killed }.bootstrap storeDir r
          withBootstrap file)
      else none

/-- Every server calls `RaftManager::bootstrap`, over whatever is on its disk. -/
def launch (storeDir : Int → String) (servers : List Int) (withBootstrap : Int → Bool)
    (file : Int → List LogEntry) (directory : Int → Directory) : Hosts where
  cluster :=
    { servers := servers
      node := fun r => Replica.bootstrap { id := r } (withBootstrap r)
        (PersistentStore.bootstrap (storePrefix storeDir r) (directory r)) (file r) }
  directory r :=
    (fileOps storeDir r (Replica.bootstrapSaves (withBootstrap r))).foldl FileOp.run (directory r)

/-- What would be loaded is what the last call of `persist` has left, and nothing of the
vote is in memory only. -/
structure Saved (storeDir : Int → String) (s : Hosts) : Prop where
  bare : ∀ q, (s.cluster.node q).Bare
  loads : ∀ q, s.loads storeDir q = (s.cluster.node q).state.pStore
  stored : ∀ q, (s.cluster.node q).Stored

theorem loads_stored (ps : List PersistentStore) (d : Directory) :
    PersistentStore.bootstrap (storePrefix storeDir q)
        ((fileOps storeDir q ps).foldl FileOp.run d) =
      ps.getLast?.getD (PersistentStore.bootstrap (storePrefix storeDir q) d) :=
  PersistentStore.bootstrap_persists ps d

theorem Saved.bootstrap (bare : ∀ q, (s.cluster.node q).Bare) {r : Int}
    (others : ∀ q, q ≠ r → s.loads storeDir q = (s.cluster.node q).state.pStore)
    (stored : ∀ q, q ≠ r → (s.cluster.node q).Stored) (withBootstrap : Bool)
    (file : List LogEntry) : Saved storeDir (s.bootstrap storeDir r withBootstrap file) := by
  have started := (s.cluster.node r).bootstrap_leaves withBootstrap (s.loads storeDir r) file
  constructor
  · exact fun q => Cluster.set_cases (fun _ => (bare r).bootstrap withBootstrap _ file)
      fun _ => bare q
  · intro q
    by_cases e : q = r
    · subst e
      simp only [Hosts.loads, Hosts.bootstrap, Cluster.set_node, Function.update_self, loads_stored]
      exact started
    · simp only [Hosts.loads, Hosts.bootstrap, Cluster.set_node, Function.update_of_ne e]
      exact others q e
  · exact fun q => Cluster.set_cases (fun _ => Replica.Stored.bootstrap _ withBootstrap _ file)
      (stored q)

theorem Saved.preserved (saved : Saved storeDir s) {x : Hosting}
    (hs : s.step storeDir x = some s') : Saved storeDir s' := by
  cases x with
  | locked x =>
      obtain ⟨c, hx, rfl⟩ := Option.map_eq_some_iff.mp hs
      refine ⟨fun q => x.bare hx saved.bare q, fun q => (loads_stored _ _).trans ?_,
        fun q => x.stored hx saved.bare (saved.stored q)⟩
      have leaves := x.leaves hx saved.bare (saved.stored q)
      rwa [← saved.loads q] at leaves
  | bootstrap r x n withBootstrap file =>
      obtain ⟨_, rfl⟩ := Option.ite_none_right_eq_some.mp hs |>.imp_right Option.some.inj
      refine Saved.bootstrap (by exact saved.bare) (fun q ne => ?_)
        (by exact fun q _ => saved.stored q) withBootstrap file
      simp only [Hosts.loads, Function.update_of_ne ne]
      exact saved.loads q

theorem launch_saved {servers : List Int} {withBootstrap : Int → Bool}
    {file : Int → List LogEntry} {directory : Int → Directory} :
    Saved storeDir (launch storeDir servers withBootstrap file directory) := by
  refine ⟨fun q => ?_, fun q => ?_, fun q => .bootstrap { id := q } (withBootstrap q) _ (file q)⟩
  · have none : ({ id := q } : Replica).Bare := ⟨by simp, by simp⟩
    exact none.bootstrap _ _ _
  · refine (loads_stored _ _).trans ?_
    exact Replica.bootstrap_leaves { id := q } (withBootstrap q) _ (file q)

/-- Whenever the mutex is free, what would be loaded is what is in memory. -/
theorem loads_saved {servers : List Int} {withBootstrap : Int → Bool}
    {file : Int → List LogEntry} {directory : Int → Directory} {h : List (Hosts × Hosting)}
    (run : Run (step storeDir) (launch storeDir servers withBootstrap file directory) h s)
    (q : Int) : s.loads storeDir q = (s.cluster.node q).state.saved := by
  have saved := run.always (I := Saved storeDir) launch_saved
    fun _ _ _ saved hs => saved.preserved hs
  exact (saved.loads q).trans (saved.stored q)

/-- Three servers with empty directories are prepared, server 1 is elected with the vote of
server 3, and server 3 is killed between the two renames of its own candidacy. -/
def killedCandidate : List Hosting :=
  ([1, 2, 3].map fun r => .locked (.setClusterConfig r Cluster.threeServers)) ++
    ([(1, 2), (1, 3), (2, 1), (2, 3), (3, 1), (3, 2)].map fun p => .locked (.addPeer p.1 p.2)) ++
    (Cluster.plainElection.map fun a => .locked (.step a)) ++
    [.bootstrap 3 (.step (.electionTick 3 50 5)) 3 true []]

theorem loads_saved_killedCandidate :
    let p := outcome (step fun _ => "")
      (launch (fun _ => "") [1, 2, 3] (fun _ => true) (fun _ => []) fun _ _ => none) killedCandidate
    p.1.length = 14 ∧ (p.2.cluster.node 3).state.votedFor = 3 ∧
      (p.2.cluster.node 3).state.currentTerm = 1 ∧
      p.2.loads (fun _ => "") 3 = (p.2.cluster.node 3).state.saved :=
  ⟨by decide +kernel, by decide +kernel, by decide +kernel, loads_saved (outcome_run _ _ _) 3⟩

end Hosts
end OhMyDb
