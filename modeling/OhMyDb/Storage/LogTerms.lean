import OhMyDb.Raft.LogOrder
import OhMyDb.Raft.Safety
import OhMyDb.Storage.Durability
import OhMyDb.Storage.LogFile

/-!
The terms in the log file and the term in the store. They are in separate files, and the order
in which these are written decides what a process can find that is started again.
-/

namespace OhMyDb
open Execution
open Records (RecordFile)

namespace LogVector
variable {v : LogVector}

theorem OnDisk.length (h : v.OnDisk) : v.file.length = v.persistedItems := by
  rw [h.file, List.length_map, List.length_take, Nat.min_eq_left h.bound]

theorem OnDisk.persist_grows (h : v.OnDisk) : v.file <+: v.persist.file := by
  have bound := h.bound
  unfold LogVector.persist
  split
  · exact List.prefix_rfl
  · next ne =>
    have less : ¬ v.items.length ≤ v.persistedItems := by omega
    simp only [LogVector.resize, if_neg less]
    exact List.prefix_append _ _

theorem bootstrap_onDisk {file : List LogEntry} (stripped : ∀ e ∈ file, e.stored = e) :
    ({ file := file } : LogVector).bootstrap.OnDisk where
  bound := Nat.le_refl _
  file := by
    rw [LogVector.bootstrap, List.take_length, List.map_congr_left stripped, List.map_id']

end LogVector

namespace Replica
variable {r r' : Replica}

/-- The file is not cut. -/
def Rules.uncut : Rules where
  cut _ _ := False

theorem Persists.grows (p : r.Persists) (ch : Changes .uncut r r') :
    r'.Persists ∧ r.state.logs.file <+: r'.state.logs.file := by
  refine ch.preserves (I := fun x => x.Persists ∧ r.state.logs.file <+: x.state.logs.file)
    (fun x y ⟨px, grown⟩ ch => ⟨px.change ch, ?_⟩) ⟨p, List.prefix_rfl⟩
  cases ch with
  | cut n ok => exact ok.elim
  | update saved u rest _ _ | updateHandler j h u _ _ _ => cases u <;> exact grown
  | finish saved _ | leave hs h _ _ _ => exact grown.trans px.onDisk.persist_grows
  | _ => exact grown

theorem appendRest_grows (args : AppendEntriesParams) (es : List AppendLogEntry) (r : Replica)
    (disk : r.state.logs.OnDisk) :
    r.state.logs.file <+: (r.appendRest args es).1.state.logs.file := by
  induction es generalizing r with
  | nil =>
      rw [appendRest_nil, followCommit_logs]
      exact disk.persist_grows
  | cons e es ih =>
      rw [appendRest_cons]
      cases e.op.command.peerUpdate r.id with
      | some u => exact List.prefix_rfl
      | none =>
          have rest := ih ((r.append ⟨e.term, e.op⟩).checkIndex e)
            (by rw [checkIndex_state]; exact disk.pushBack _)
          rw [checkIndex_state] at rest
          exact rest

/-- `AppendEntries` cuts the file, and writes behind that. -/
theorem appendEntries_grows (r : Replica) (args : AppendEntriesParams) (now : Int)
    (disk : r.state.logs.OnDisk) :
    ((r.cut args now).elim r.state.logs r.state.logs.resize).file <+:
      (r.appendEntries args now).1.state.logs.file := by
  unfold cut appendEntries
  by_cases dead : r.state.role = .dead
  · rw [if_neg fun h => h.1 dead, if_pos dead]
    exact List.prefix_rfl
  rw [if_neg dead]
  simp only [observeLeader_logs, mergeEntries]
  by_cases accepted : args.term = (r.observeLeader args now).currentTerm ∧
      prevMatches r.state.logs args
  · rw [if_pos accepted]
    by_cases new : newEntriesIndex r.state.logs args < args.entries.length
    · rw [if_pos ⟨dead, accepted.1, accepted.2, new⟩, if_pos new]
      have cut := appendRest_grows args (args.entries.drop (newEntriesIndex r.state.logs args))
        ({ r with state := r.observeLeader args now }.truncate (logInsertIndex r.state.logs args))
      simp only [truncate, observeLeader_logs] at cut ⊢
      exact cut (disk.resize _)
    · rw [if_neg fun h => new h.2.2.2, if_neg new, followCommit_logs, observeLeader_logs]
      exact List.prefix_rfl
  · rw [if_neg fun h => accepted ⟨h.2.1, h.2.2.1⟩, if_neg accepted]
    rw [observeLeader_logs]
    exact List.prefix_rfl

end Replica

namespace Locked
variable {c c' : Cluster} {x : Locked} {q : Int}

/-- The server whose state is locked. -/
def server (c : Cluster) : Locked → Int
  | .step a => c.server a
  | .setClusterConfig r _ | .addPeer r _ | .removePeer r _ => r

/-- The steps that keep the terms of the logs in order. -/
def InOrder (c : Cluster) : Locked → Prop
  | .step a => c.NoStepBack a ∧ c.SendsOwnTerms a ∧ c.ResumesInOrder a
  | .setClusterConfig _ _ | .addPeer _ _ | .removePeer _ _ => True

instance (c : Cluster) (x : Locked) : Decidable (x.InOrder c) :=
  match x with
  | .step _ => inferInstanceAs (Decidable (_ ∧ _ ∧ _))
  | .setClusterConfig _ _ | .addPeer _ _ | .removePeer _ _ => inferInstanceAs (Decidable True)

/-- What is set at a replica that no loop appends at. -/
theorem act_cases (hx : x.act c = some c') :
    (∃ a, x = .step a ∧ c.step a = some c') ∨
    (∀ q, x.cut q c = none) ∧ ∃ r y, c' = c.set r y ∧ y.state.logs = (c.node r).state.logs ∧
      y.state.currentTerm = (c.node r).state.currentTerm ∧ y.handlers = (c.node r).handlers ∧
      y.appendThreads = (c.node r).appendThreads ∧ y.raftThread = (c.node r).raftThread ∧
      x.server c = r := by
  cases x with
  | step a => exact Or.inl ⟨a, rfl, hx⟩
  | setClusterConfig r config | addPeer r peerId | removePeer r peerId =>
      obtain rfl := Option.some.inj hx
      exact Or.inr ⟨fun _ => rfl, r, _, rfl, rfl, rfl, rfl, rfl, rfl, rfl⟩

theorem persists (hx : x.act c = some c') (bare : ∀ p, (c.node p).Bare)
    (p : (c.node q).Persists) : (c'.node q).Persists := by
  rcases act_cases hx with ⟨a, rfl, hs⟩ | ⟨_, r, y, rfl, logs, _, handlers, _, thread, _⟩
  · have tr := (Cluster.Transition.of_step hs).2
    exact (tr.changes bare (c.abides_free a) q).preserves (fun _ _ h ch => h.change ch) p
  · refine Cluster.set_cases (fun here => ?_) fun _ => p
    subst here
    refine p.like logs fun suspended => ?_
    rw [Replica.Suspended, thread, handlers]
    exact suspended

/-- At another server nothing is cut and nothing written. -/
theorem elsewhere (hx : x.act c = some c') (other : q ≠ x.server c) :
    x.cut q c = none ∧ (c'.node q).state = (c.node q).state := by
  rcases act_cases hx with ⟨a, rfl, hs⟩ | ⟨none, r, y, rfl, _, _, _, _, _, rfl⟩
  · have tr := (Cluster.Transition.of_step hs).2
    obtain ⟨vs, as, same⟩ := tr.elsewhere other
    refine ⟨?_, by rw [same]⟩
    cases tr with
    | appendDeliver r k now t args ht ha _ =>
        obtain ⟨peer, saved, nextIndex, _, replies, finished⟩ := t
        cases ha
        have ne : peer ≠ q := by
          simp only [server, Cluster.server, ht, Option.map_some, Option.getD_some] at other
          exact Ne.symm other
        simp only [cut, ht, if_neg ne]
    | _ => rfl
  · exact ⟨none q, by rw [Cluster.set_node, Function.update_of_ne other]⟩

/-- The file is cut first, and only grows then. -/
theorem resized_grows (hx : x.act c = some c') (bare : ∀ p, (c.node p).Bare)
    (p : (c.node q).Persists) : (x.resized q c).file <+: (c'.node q).state.logs.file := by
  unfold resized
  by_cases other : q ≠ x.server c
  · obtain ⟨none, same⟩ := elsewhere hx other
    rw [none, same]
    exact List.prefix_rfl
  have here := not_not.mp other
  rcases act_cases hx with ⟨a, rfl, hs⟩ | ⟨none, r, y, rfl, logs, _, _, _, _, rfl⟩
  · have tr := (Cluster.Transition.of_step hs).2
    have grows (abides : c.Abides .uncut a) :
        (c.node q).state.logs.file <+: (c'.node q).state.logs.file :=
      (p.grows (tr.changes bare abides q)).2
    cases tr with
    | appendDeliver r k now t args ht ha _ =>
        obtain ⟨peer, saved, nextIndex, _, replies, finished⟩ := t
        cases ha
        have same : peer = q := by
          simp only [server, Cluster.server, ht, Option.map_some, Option.getD_some] at here
          exact here.symm
        subst same
        simp only [cut, ht, if_true, Cluster.settleAppend_state, Cluster.set_node,
          Function.update_self]
        exact (c.node peer).appendEntries_grows args now p.onDisk
    | _ => exact grows (by simp [Cluster.Abides, Replica.Rules.uncut])
  · rw [none, here, Cluster.set_node, Function.update_self, logs]
    exact List.prefix_rfl

theorem resized_append_writes (hx : x.act c = some c') (bare : ∀ p, (c.node p).Bare)
    (p : (c.node q).Persists) :
    (x.resized q c).file ++ x.writes q c = (c'.node q).state.logs.file := by
  obtain ⟨new, grown⟩ := resized_grows hx bare p
  simp only [writes, hx]
  rw [← grown, List.drop_left]

/-- The file and its mirror are cut alike. -/
theorem mirrors_resized {most : ℕ} {f : RecordFile LogEntry}
    (mirrors : f.Mirrors most (c.node q).state.logs.file) (disk : (c.node q).state.logs.OnDisk) :
    (x.resizedFile q c f).Mirrors most (x.resized q c).file := by
  have length := disk.length
  unfold resizedFile resized
  cases x.cut q c with
  | none => exact mirrors
  | some n =>
      by_cases inside : n ≤ (c.node q).state.logs.persistedItems
      · have cut : ((c.node q).state.logs.resize n).file = (c.node q).state.logs.file.take n := by
          rw [LogVector.resize, if_pos inside]
        rw [Option.filter_some, if_pos (by simpa using inside), Option.elim_some, Option.elim_some,
          cut]
        exact mirrors.truncate (by omega)
      · have kept : ((c.node q).state.logs.resize n).file = (c.node q).state.logs.file := by
          rw [LogVector.resize, if_neg inside]
        rw [Option.filter_some, if_neg (by simpa using inside), Option.elim_none, Option.elim_some,
          kept]
        exact mirrors

end Locked

namespace PersistentStore
variable {base : String}

/-- A term that is loaded was there before, or has been stored by one of the calls. -/
theorem term_take (ps : List PersistentStore) (n : ℕ) (d : Directory) :
    (bootstrap base (((ps.flatMap (persist base)).take n).foldl FileOp.run d)).currentTerm ∈
      (bootstrap base d).currentTerm :: ps.map (·.currentTerm) := by
  induction ps generalizing n d with
  | nil =>
      rw [List.flatMap_nil, List.take_nil]
      exact List.mem_cons_self
  | cons p ps ih =>
      have length : (persist base p).length = 6 := rfl
      rw [List.flatMap_cons, List.take_append, List.foldl_append, length]
      -- the value of the first call is found once its second file has been renamed
      have first : (bootstrap base (((persist base p).take n).foldl FileOp.run d)).currentTerm =
          if n < 6 then (bootstrap base d).currentTerm else p.currentTerm := by
        have voted : (store base "VotedFor" p.votedFor).length = 3 := rfl
        rw [persist, List.take_append, List.foldl_append, voted]
        obtain ⟨_, rest⟩ := store_take base "VotedFor" p.votedFor n d
        generalize ((store base "VotedFor" p.votedFor).take n).foldl FileOp.run d = e at rest
        obtain ⟨term, _⟩ := store_take base "CurrentTerm" p.currentTerm (n - 3) e
        simp only [bootstrap, load, loadInt, term,
          rest _ votedFor_ne_currentTerm.symm (getFilename_ne _ _ _ (by decide)),
          show n - 3 < 3 ↔ n < 6 by omega]
        split <;> rfl
      have rest := ih (n - 6) (((persist base p).take n).foldl FileOp.run d)
      rw [first] at rest
      rw [List.map_cons]
      rcases List.mem_cons.mp rest with same | later
      · rw [same]
        split
        · exact List.mem_cons_self
        · exact List.mem_cons_of_mem _ List.mem_cons_self
      · exact List.mem_cons_of_mem _ (List.mem_cons_of_mem _ later)

end PersistentStore

namespace DiskOp

def fileOp : DiskOp → Option FileOp
  | .store op => some op
  | .truncate _ | .write _ => none

/-- As long as no record is written. -/
theorem foldl_behind (ops : List DiskOp) (quiet : ∀ e, .write e ∉ ops) (v : Volume) :
    (ops.foldl run v).logFile.Behind v.logFile ∧
      (ops.foldl run v).directory = (ops.filterMap fileOp).foldl FileOp.run v.directory := by
  induction ops generalizing v with
  | nil => exact ⟨.refl _, rfl⟩
  | cons op ops ih =>
      obtain ⟨behind, same⟩ := ih (fun e mem => quiet e (List.mem_cons_of_mem _ mem)) (run v op)
      cases op with
      | store op => exact ⟨behind, same⟩
      | truncate n => exact ⟨behind.trans (RecordFile.truncate_behind _ _), same⟩
      | write e => exact absurd List.mem_cons_self (quiet e)

end DiskOp

namespace Locked
variable {base : String} {c c' : Cluster} {x : Locked} {q : Int} {v : Volume}

theorem prepares_quiet (e : LogEntry) : .write e ∉ x.prepares base q c := by
  unfold prepares stores
  split
  · exact List.not_mem_nil
  · simp

theorem prepares_fileOp (hx : x.act c = some c') :
    (x.prepares base q c).filterMap DiskOp.fileOp =
      (x.saves q c).flatMap (PersistentStore.persist base) := by
  have stored (ps : List PersistentStore) : (stores base ps).filterMap DiskOp.fileOp =
      ps.flatMap (PersistentStore.persist base) := by
    rw [stores, List.filterMap_map]
    exact List.filterMap_some
  have cuts (ns : List ℕ) : (ns.map DiskOp.truncate).filterMap DiskOp.fileOp = [] := by
    rw [List.filterMap_map]
    exact List.filterMap_eq_nil_iff.mpr fun _ _ => rfl
  simp only [prepares, hx]
  rw [List.filterMap_append, List.filterMap_append, stored, stored, cuts, List.append_nil,
    ← List.flatMap_append, List.take_append_drop]

/-- Before the first record is written. -/
theorem take_prepares (hx : x.act c = some c') {n : ℕ} (early : n ≤ (x.prepares base q c).length)
    (v : Volume) :
    (((x.diskOps base q c).take n).foldl DiskOp.run v).logFile.Behind v.logFile ∧
      ∃ m, (((x.diskOps base q c).take n).foldl DiskOp.run v).directory =
        (((x.saves q c).flatMap (PersistentStore.persist base)).take m).foldl FileOp.run
          v.directory := by
  rw [diskOps, List.take_append_of_le_length early]
  obtain ⟨behind, same⟩ := DiskOp.foldl_behind ((x.prepares base q c).take n)
    (fun e mem => prepares_quiet e (List.mem_of_mem_take mem)) v
  have front := (List.take_prefix n (x.prepares base q c)).filterMap DiskOp.fileOp
  rw [prepares_fileOp hx, List.prefix_iff_eq_take] at front
  exact ⟨behind, _, by rw [same, ← front]⟩

/-- Everything is stored when records are written, and the file is a part of what it is in the
end. -/
theorem take_writes (hx : x.act c = some c') {n : ℕ} (late : (x.prepares base q c).length ≤ n)
    (v : Volume) (whole : x.writes q c ≠ [] → (x.resizedFile q c v.logFile).rear = .whole) :
    (((x.diskOps base q c).take n).foldl DiskOp.run v).logFile.Behind
        ((x.diskOps base q c).foldl DiskOp.run v).logFile ∧
      (((x.diskOps base q c).take n).foldl DiskOp.run v).directory =
        ((x.diskOps base q c).foldl DiskOp.run v).directory ∧
      (x.writes q c ≠ [] →
        (((x.diskOps base q c).take n).foldl DiskOp.run v).logFile.rear = .whole) := by
  have ops : (x.diskOps base q c).take n = x.prepares base q c ++
      ((x.writes q c).take (n - (x.prepares base q c).length)).map .write := by
    rw [diskOps, List.take_append, List.take_of_length_le late, List.map_take]
  rw [foldl_diskOps hx, ops, List.foldl_append, foldl_prepares hx, foldl_writes]
  refine ⟨?_, rfl, fun some => ?_⟩
  · by_cases some : x.writes q c = []
    · rw [some, List.take_nil]
      exact .refl _
    · rw [RecordFile.foldl_write (whole some), RecordFile.foldl_write (whole some)]
      exact ⟨List.prefix_append_right_inj _ |>.mpr (List.take_prefix _ _),
        fun torn => by cases torn⟩
  · rw [RecordFile.foldl_write (whole some)]

theorem logsOrder (hx : x.act c = some c') (bare : ∀ p, (c.node p).Bare) (h : c.LogsOrder)
    (ok : x.InOrder c) : c'.LogsOrder := by
  rcases act_cases hx with ⟨a, rfl, hs⟩ | ⟨_, r, y, rfl, logs, term, handlers, threads, _, _⟩
  · exact h.preserved bare hs ok.1 ok.2.1 ok.2.2
  · refine ⟨fun q => Cluster.set_logOrder (h.node q) fun _ =>
      (h.node r).same (congrArg LogVector.items logs) term.ge handlers, fun q => ?_⟩
    rw [Cluster.set_same (·.appendThreads) threads q]
    exact h.sent q

/-- No term is taken back, and none is stored on the way that is earlier. -/
theorem terms_le (hx : x.act c = some c') (bare : ∀ p, (c.node p).Bare)
    (stored : (c.node q).Stored) (ok : x.InOrder c) :
    (c.node q).state.currentTerm ≤ (c'.node q).state.currentTerm ∧
      ∀ p ∈ x.saves q c, (c.node q).state.currentTerm ≤ p.currentTerm := by
  have still {r : Int} {y : Replica} (same : y.state.currentTerm = (c.node r).state.currentTerm) :
      (c.node q).state.currentTerm ≤ ((c.set r y).node q).state.currentTerm :=
    (Cluster.set_same (·.state.currentTerm) same q).ge
  cases x with
  | step a =>
      have le := (Cluster.Transition.of_step hx).2.term_le_iff.mpr ok.1 q
      refine ⟨le, fun p hp => ?_⟩
      rcases Cluster.mem_saves hx bare stored hp with rfl | later
      · exact le
      · exact later.le
  | setClusterConfig r config | addPeer r peerId =>
      obtain rfl := Option.some.inj hx
      refine ⟨still rfl, fun p hp => ?_⟩
      simp only [saves] at hp
      obtain ⟨rfl, only⟩ := List.mem_ite_nil_right.mp hp
      rw [List.mem_singleton.mp only]
      exact le_rfl
  | removePeer r peerId =>
      obtain rfl := Option.some.inj hx
      exact ⟨still rfl, fun p hp => absurd hp List.not_mem_nil⟩

end Locked

namespace Replica
variable {r : Replica}

/-- What is in the file is in order as the log is. -/
theorem Persists.filed (p : r.Persists) (h : r.LogOrder) :
    Ascending r.state.currentTerm (LogEntry.terms r.state.logs.file) ∧
      ∀ e ∈ r.state.logs.file, e.stored = e := by
  rw [p.onDisk.file]
  refine ⟨?_, fun e he => ?_⟩
  · have terms : LogEntry.terms ((r.state.logs.items.take r.state.logs.persistedItems).map
        LogEntry.stored) =
        (LogEntry.terms r.state.logs.items).take r.state.logs.persistedItems := by
      rw [LogEntry.terms, LogEntry.terms, List.map_map, List.map_take]
      rfl
    rw [terms]
    exact h.log.sublist (List.take_sublist _ _)
  · obtain ⟨_, _, rfl⟩ := List.mem_map.mp he
    rfl

end Replica

/-- A process that bootstraps finds a log whose terms ascend up to the term it finds. -/
structure Volume.Recoverable (base : String) (most : ℕ) (v : Volume) : Prop where
  aligned : v.logFile.rear ≠ .garbled
  terms : Ascending (PersistentStore.bootstrap base v.directory).currentTerm
    (LogEntry.terms (v.logFile.records.take most))
  stripped : ∀ e ∈ v.logFile.records.take most, e.stored = e

/-- Part of what is in order is in order. -/
theorem Volume.Recoverable.of_behind {base : String} {most : ℕ} {v : Volume}
    {g : RecordFile LogEntry} {file : List LogEntry} {term : Int} (behind : v.logFile.Behind g)
    (mirrors : g.Mirrors most file) (terms : Ascending term (LogEntry.terms file))
    (stripped : ∀ e ∈ file, e.stored = e)
    (le : term ≤ (PersistentStore.bootstrap base v.directory).currentTerm) :
    v.Recoverable base most := by
  have sub : (v.logFile.records.take most).Sublist file := by
    have front := (behind.records.take most).sublist
    rw [mirrors.same] at front
    exact front.trans (List.take_sublist _ _)
  exact ⟨fun garbled => mirrors.aligned (behind.rear garbled),
    (terms.sublist (sub.map _)).mono le, fun e he => stripped e (sub.subset he)⟩

/-- Part of a record behind the others is not read. -/
theorem Volume.Recoverable.tear {base : String} {most : ℕ} {v : Volume}
    (h : v.Recoverable base most) (whole : v.logFile.rear = .whole) :
    { v with logFile := v.logFile.tear : Volume }.Recoverable base most := by
  have torn : v.logFile.tear = { v.logFile with rear := .torn } := by
    rw [RecordFile.tear, whole]
  rw [torn]
  exact ⟨nofun, h.terms, h.stripped⟩

/-- Over an empty file any term will do. -/
theorem Volume.Recoverable.of_empty {base : String} {most : ℕ} {v : Volume}
    (empty : v.logFile.Behind {}) : v.Recoverable base most :=
  .of_behind empty ⟨nofun, Nat.le_refl _, rfl⟩ (Ascending.nil _)
    (fun _ h => absurd h List.not_mem_nil) le_rfl

namespace Machines
variable {storeDir : Int → String} {size : ℕ} {s s' : Machines} {q r : Int}

/-- Records are written behind whole ones only. -/
def WritesWhole (s : Machines) (r : Int) (x : Locked) : Prop :=
  x.writes r s.cluster ≠ [] → (x.resizedFile r s.cluster (s.volume r).logFile).rear = .whole

/-- What is done keeps the terms in order, where it is interrupted as well, no record is
written behind a torn one, and `pread` transfers all that does not read as zeros to a process
that starts with bootstrap. -/
def KeepsOrder (storeDir : Int → String) (size : ℕ) (s : Machines) : Happening → Prop
  | .locked x => x.InOrder s.cluster ∧ s.WritesWhole (x.server s.cluster) x
  | .crash r x n torn again withBootstrap reading =>
      x.InOrder s.cluster ∧ s.WritesWhole r x ∧ (withBootstrap = true →
        reading.Transfers size (restarted storeDir r again (s.killed storeDir r x n torn)).logFile)

instance (s : Machines) (r : Int) (x : Locked) : Decidable (s.WritesWhole r x) :=
  inferInstanceAs (Decidable (_ → _))

instance (s : Machines) (e : Happening) : Decidable (s.KeepsOrder storeDir size e) :=
  match e with
  | .locked _ => inferInstanceAs (Decidable (_ ∧ _))
  | .crash _ _ _ _ _ _ _ => inferInstanceAs (Decidable (_ ∧ _ ∧ (_ → _)))

/-- The logs are in order, and the disks hold them. -/
structure Sound (storeDir : Int → String) (size : ℕ) (s : Machines) : Prop where
  saved : Hosts.Saved storeDir s.hosts
  order : s.cluster.LogsOrder
  persists : ∀ q, (s.cluster.node q).Persists
  mirrors : ∀ q, (s.volume q).logFile.Mirrors (readable size) (s.cluster.node q).state.logs.file

variable {c' : Cluster} {x : Locked}

theorem Sound.mirrored (sound : s.Sound storeDir size) (hx : x.act s.cluster = some c')
    (whole : s.WritesWhole q x) :
    ((s.diskOps storeDir q x).foldl DiskOp.run (s.volume q)).logFile.Mirrors (readable size)
      (c'.node q).state.logs.file := by
  have persists := sound.persists q
  have cut := x.mirrors_resized (sound.mirrors q) persists.onDisk
  rw [← Locked.resized_append_writes hx sound.saved.bare persists, diskOps, Locked.foldl_diskOps hx]
  by_cases none : x.writes q s.cluster = []
  · rw [none, List.append_nil]
    exact cut
  · exact cut.append (whole none) _

/-- Another server's file stays as it is. -/
theorem writesWhole_of_ne (hx : x.act s.cluster = some c') (other : q ≠ x.server s.cluster) :
    s.WritesWhole q x := by
  obtain ⟨none, same⟩ := Locked.elsewhere hx other
  intro some
  refine absurd ?_ some
  simp only [Locked.writes, hx, Locked.resized, none, same, Option.elim_none, List.drop_length]

theorem Sound.locked (sound : s.Sound storeDir size)
    (ok : s.KeepsOrder storeDir size (.locked x))
    (hs : s.step storeDir size (.locked x) = some s') : s'.Sound storeDir size := by
  have saved := saved_preserved sound.saved hs
  obtain ⟨c, hx, rfl⟩ := Option.map_eq_some_iff.mp hs
  refine ⟨saved, Locked.logsOrder hx sound.saved.bare sound.order ok.1,
    fun q => Locked.persists hx sound.saved.bare (sound.persists q), fun q => ?_⟩
  refine sound.mirrored hx ?_
  by_cases here : q = x.server s.cluster
  · exact here ▸ ok.2
  · exact writesWhole_of_ne hx here

/-- Nothing is done on the disk by a step that cannot be taken. -/
theorem diskOps_none (hx : x.act s.cluster = none) : s.diskOps storeDir r x = [] := by
  simp [diskOps, Locked.diskOps, Locked.prepares, Locked.writes, hx]

/-- However far the file operations have come. Before the first record the file is part of what
it was, and the terms stored are no earlier than it knows. Afterwards it is part of what it is to
be, and the term that goes with this is stored. -/
theorem Sound.interrupted (sound : s.Sound storeDir size) (ok : x.InOrder s.cluster)
    (whole : s.WritesWhole r x) (n : ℕ) :
    (((s.diskOps storeDir r x).take n).foldl DiskOp.run (s.volume r)).Recoverable
      (base storeDir r) (readable size) := by
  have persists := sound.persists r
  obtain ⟨terms, stripped⟩ := persists.filed (sound.order.node r)
  have loaded : (PersistentStore.bootstrap (base storeDir r) (s.volume r).directory).currentTerm =
      (s.cluster.node r).state.currentTerm :=
    congrArg PersistentStore.currentTerm
      ((sound.saved.loads r).trans (sound.saved.stored r))
  cases hx : x.act s.cluster with
  | none =>
      rw [diskOps_none hx, List.take_nil]
      exact .of_behind (.refl _) (sound.mirrors r) terms stripped loaded.ge
  | some c' =>
      rcases Nat.le_total n (x.prepares (base storeDir r) r s.cluster).length with early | late
      · obtain ⟨behind, m, stored⟩ := Locked.take_prepares hx early (s.volume r)
        refine .of_behind behind (sound.mirrors r) terms stripped ?_
        rw [diskOps, stored]
        rcases List.mem_cons.mp (PersistentStore.term_take (x.saves r s.cluster) m _) with
          before | saved
        · rw [before, loaded]
        · obtain ⟨p, hp, same⟩ := List.mem_map.mp saved
          rw [← same]
          exact (Locked.terms_le hx sound.saved.bare (sound.saved.stored r) ok).2 p hp
      · obtain ⟨behind, stored, _⟩ := Locked.take_writes hx late (s.volume r) whole
        have stepped : s.step storeDir size (.locked x) = some ⟨c', fun q =>
            (s.diskOps storeDir q x).foldl DiskOp.run (s.volume q)⟩ := congrArg (Option.map _) hx
        obtain ⟨terms, stripped⟩ := (Locked.persists hx sound.saved.bare persists).filed
          ((Locked.logsOrder hx sound.saved.bare sound.order ok).node r)
        refine .of_behind behind (sound.mirrored hx whole) terms stripped ?_
        rw [diskOps, stored]
        have after := saved_preserved sound.saved stepped
        exact (congrArg PersistentStore.currentTerm
          ((after.loads r).trans (after.stored r))).ge

/-- A record is torn behind whole ones. -/
theorem whole_before_write (whole : s.WritesWhole r x) {n : ℕ} {e : LogEntry}
    (next : (s.diskOps storeDir r x)[n]? = some (.write e)) :
    (((s.diskOps storeDir r x).take n).foldl DiskOp.run (s.volume r)).logFile.rear = .whole := by
  cases hx : x.act s.cluster with
  | none =>
      rw [diskOps_none hx] at next
      cases next
  | some c' =>
      rw [diskOps, Locked.diskOps] at next
      have late : (x.prepares (base storeDir r) r s.cluster).length ≤ n := by
        by_contra early
        rw [List.getElem?_append_left (not_le.mp early)] at next
        exact Locked.prepares_quiet e (List.mem_of_getElem? next)
      refine (Locked.take_writes hx late (s.volume r) whole).2.2 fun none => ?_
      rw [List.getElem?_append_right late, none] at next
      cases next

theorem Sound.killed (sound : s.Sound storeDir size) (ok : x.InOrder s.cluster)
    (whole : s.WritesWhole r x) (n : ℕ) (torn : Bool) :
    (s.killed storeDir r x n torn).Recoverable (base storeDir r) (readable size) := by
  have found := sound.interrupted ok whole n
  unfold Machines.killed
  split
  · next e next => exact found.tear (whole_before_write whole next)
  · exact found

/-- A start without bootstrap empties the file first. -/
theorem restarted_recoverable {v : Volume} (found : v.Recoverable (base storeDir r) (readable size))
    (again : List ℕ) :
    (restarted storeDir r again v).Recoverable (base storeDir r) (readable size) := by
  induction again generalizing v with
  | nil => exact found
  | cons n again ih =>
      refine ih ?_
      cases n with
      | zero => exact found
      | succ n =>
          have quiet (e : LogEntry) : .write e ∉
              (Locked.stores (base storeDir r) (Replica.bootstrapSaves false)).take n := by
            intro mem
            simpa [Locked.stores] using List.mem_of_mem_take mem
          refine .of_empty ((DiskOp.foldl_behind _ quiet _).1.trans ?_)
          have cut : v.logFile.truncate 0 = {} := if_pos (Nat.zero_le _)
          exact cut ▸ .refl _

/-- A replica that bootstraps over such a disk. -/
theorem bootstrap_sound (x : Replica) {v : Volume}
    (found : v.Recoverable (base storeDir r) (readable size)) (withBootstrap : Bool)
    (reading : Reading)
    (transfers : withBootstrap = true → reading.Transfers size v.logFile) :
    let y := x.bootstrap withBootstrap (PersistentStore.bootstrap (base storeDir r) v.directory)
      (reading.read size v.logFile)
    y.LogOrder ∧ y.Persists ∧ ((bootstrapOps storeDir r withBootstrap).foldl DiskOp.run
      v).logFile.Mirrors (readable size) y.state.logs.file := by
  intro y
  rw [foldl_bootstrapOps]
  cases withBootstrap with
  | false =>
      exact ⟨⟨Ascending.nil _, fun _ h => absurd h List.not_mem_nil⟩,
        ⟨⟨Nat.le_refl _, rfl⟩, fun _ => rfl⟩, ⟨nofun, Nat.le_refl _, rfl⟩⟩
  | true =>
      have read : reading.read size v.logFile = v.logFile.records.take (readable size) :=
        RecordFile.read_eq found.aligned (transfers rfl)
      have logs : y.state.logs = ({ file := v.logFile.records.take (readable size) } :
          LogVector).bootstrap := by
        rw [← read]
        rfl
      refine ⟨⟨?_, fun _ h => absurd h List.not_mem_nil⟩, ⟨?_, fun _ => ?_⟩,
        ⟨found.aligned, ?_, ?_⟩⟩
      · rw [logs]
        exact found.terms
      · rw [logs]
        exact LogVector.bootstrap_onDisk found.stripped
      · rw [logs]
        rfl
      · rw [logs]
        exact (List.take_prefix _ _).length_le
      · rw [logs, if_pos rfl]
        exact ((List.take_take (i := readable size)).trans (by rw [Nat.min_self])).symm

theorem Sound.bootstrap (sound : s.Sound storeDir size) {v : Volume}
    (found : v.Recoverable (base storeDir r) (readable size)) (withBootstrap : Bool)
    (reading : Reading)
    (transfers : withBootstrap = true → reading.Transfers size v.logFile) :
    (s.bootstrap storeDir size r v withBootstrap reading).Sound storeDir size := by
  obtain ⟨order, persists, mirrors⟩ :=
    bootstrap_sound (s.cluster.node r) found withBootstrap reading transfers
  refine ⟨saved_bootstrap sound.saved v withBootstrap reading, ⟨fun q => ?_, fun q => ?_⟩,
    fun q => ?_, fun q => ?_⟩
  · exact Cluster.set_logOrder (sound.order.node q) fun _ => order
  · refine Cluster.set_cases (P := fun y => ∀ t ∈ y.appendThreads, ∀ args ∈ t.args, args.Ascends)
      (fun _ t ht => ?_) fun _ => sound.order.sent q
    obtain ⟨u, hu, rfl⟩ := List.mem_map.mp ht
    exact sound.order.sent r u hu
  · exact Cluster.set_cases (fun _ => persists) fun _ => sound.persists q
  · by_cases e : q = r
    · simp only [Machines.bootstrap, Cluster.set_node, e, Function.update_self]
      exact mirrors
    · simp only [Machines.bootstrap, Cluster.set_node, Function.update_of_ne e]
      exact sound.mirrors q

theorem Sound.preserved {e : Happening} (sound : s.Sound storeDir size)
    (ok : s.KeepsOrder storeDir size e) (hs : s.step storeDir size e = some s') :
    s'.Sound storeDir size := by
  cases e with
  | locked x => exact sound.locked ok hs
  | crash r x n torn again withBootstrap reading =>
      obtain ⟨_, rfl⟩ := Option.ite_none_right_eq_some.mp hs |>.imp_right Option.some.inj
      obtain ⟨order, whole, transfers⟩ := ok
      exact sound.bootstrap (restarted_recoverable (sound.killed order whole n torn) again) _ _
        transfers

theorem launch_sound (servers : List Int) (withBootstrap : Int → Bool)
    (directory : Int → Directory) :
    (launch storeDir servers withBootstrap directory).Sound storeDir size := by
  have empty (q : Int) : Volume.Recoverable (base storeDir q) (readable size)
      { directory := directory q, logFile := {} } := .of_empty (.refl _)
  -- there is nothing to transfer
  let reading : Reading := ⟨0, fun _ => ⟨0, ⟨.get 0, none⟩⟩, []⟩
  have none : reading.Transfers size {} := by
    intro k hk
    rw [List.take_nil] at hk
    exact absurd hk (Nat.not_lt_zero k)
  have started (q : Int) := bootstrap_sound { id := q } (empty q) (withBootstrap q) reading
    fun _ => none
  have read : reading.read size {} = [] :=
    (RecordFile.read_eq (by decide) none).trans List.take_nil
  simp only [read] at started
  refine ⟨?_, ⟨fun q => (started q).1, fun q t ht => ?_⟩, fun q => (started q).2.1,
    fun q => (started q).2.2⟩
  · rw [hosts_launch]
    exact Hosts.launch_saved
  · cases ht

/-- The terms in a log do not decrease, none is beyond the current one, and the last entry's is
the highest, also in a process that was started over what a killed one had left. -/
theorem logTerms {servers : List Int} {withBootstrap : Int → Bool} {directory : Int → Directory}
    {h : List (Machines × Happening)}
    (run : Run (step storeDir size) (launch storeDir servers withBootstrap directory) h s)
    (meets : Meets (KeepsOrder storeDir size) h) (q : Int) :
    Ascending (s.cluster.node q).state.currentTerm
        (LogEntry.terms (s.cluster.node q).state.logs.items) ∧
      ∀ e ∈ (s.cluster.node q).state.logs.items,
        e.term ≤ (s.cluster.node q).state.logs.lastTerm := by
  have sound := run.stateInvariant (I := Sound storeDir size) meets
    (launch_sound servers withBootstrap directory) fun _ _ _ sound ok hs => sound.preserved ok hs
  exact ⟨(sound.order.node q).log, (sound.order.node q).le_lastTerm⟩

section
open Cluster

/-- Three servers are prepared, server 1 is elected with the vote of server 3, and has a PUT in
its log and in its file. -/
def electedPut : List Locked :=
  ([1, 2, 3].map (.setClusterConfig · threeServers)) ++
    ([(1, 2), (1, 3), (2, 1), (2, 3), (3, 1), (3, 2)].map fun p => .addPeer p.1 p.2) ++
    (plainElection ++ submitPut 1 5 7).map .step

/-- What Linux transfers at most, with a GET of key 0 for every record that is not. -/
def linuxReading : Reading where
  transferred := 2 ^ 31 - 2 ^ 12
  blank _ := ⟨0, ⟨.get 0, none⟩⟩
  junk := []

/-- Server 3 is killed as it writes the record of this PUT, and server 1 as it stores the term of
a request for its vote. -/
def tornRecord : List Happening :=
  (electedPut ++ [Locked.step (.appendSend 1 0 0)]).map .locked ++
    [.crash 3 (.step (.appendDeliver 1 0 20)) 1 true [] true linuxReading,
      .locked (.step (.electionTick 2 50 5)), .locked (.step (.voteSend 2 0)),
      .crash 1 (.step (.voteDeliver 2 0 51)) 4 false [] true linuxReading]

theorem logTerms_tornRecord :
    let p := outcome (step (fun _ => "") 32)
      (launch (fun _ => "") [1, 2, 3] (fun _ => true) fun _ _ => none) tornRecord
    p.1.length = 25 ∧ (p.2.volume 3).logFile.rear = .torn ∧
      Ascending 1 (LogEntry.terms (p.2.cluster.node 1).state.logs.items) ∧
      ∀ e ∈ (p.2.cluster.node 1).state.logs.items, e.term ≤ 1 := by
  intro p
  have ordered := logTerms (outcome_run _ _ _ : Run _ _ p.1 p.2) (by decide +kernel) 1
  have term : (p.2.cluster.node 1).state.currentTerm = 1 := by decide +kernel
  have last : (p.2.cluster.node 1).state.logs.lastTerm = 1 := by decide +kernel
  rw [term, last] at ordered
  exact ⟨by decide +kernel, by decide +kernel, ordered⟩

/-- Server 2 hears of term 2 and refuses the PUT. Before the refusal arrives server 1 hears of
term 2 as well, is elected for term 3, and puts another PUT in its log. -/
def overtakenReply : List Action :=
  [.electionTick 3 50 5, .voteSend 3 0, .voteDeliver 3 0 51, .appendSend 1 1 0,
    .appendDeliver 1 1 52, .voteSend 3 1, .voteDeliver 3 1 53,
    .electionTick 1 100 5, .voteSend 1 2, .voteDeliver 1 2 101, .voteReturn 1 2 ⟨3, true⟩ 102,
    .clientPut 1 6 8, .callStep 1 1 0, .callStep 1 1 0] ++ List.replicate 4 (.raftImpl 1) ++
    [.appendReturn 1 1 ⟨2, false⟩ 103]

/-- The refusal takes server 1 back to term 2, and the last entry of its log is of term 3. -/
theorem not_logTerms : ¬ ∀ (storeDir : Int → String) (size : ℕ) (servers : List Int)
    (withBootstrap : Int → Bool) (directory : Int → Directory) (h : List (Machines × Happening))
    (s : Machines), Run (step storeDir size) (launch storeDir servers withBootstrap directory) h s →
      ∀ q, Ascending (s.cluster.node q).state.currentTerm
          (LogEntry.terms (s.cluster.node q).state.logs.items) ∧
        ∀ e ∈ (s.cluster.node q).state.logs.items,
          e.term ≤ (s.cluster.node q).state.logs.lastTerm := by
  intro always
  have run := outcome_run (step (fun _ => "") 32)
    (launch (fun _ => "") [1, 2, 3] (fun _ => true) fun _ _ => none)
    ((electedPut ++ overtakenReply.map Locked.step).map .locked)
  exact absurd ((always _ _ _ _ _ _ _ run 1).1.le 3 (by decide +kernel)) (by decide +kernel)

end

end Machines
end OhMyDb
