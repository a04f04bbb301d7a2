import OhMyDb.Lib.RecordFile
import OhMyDb.Storage.Directories
import OhMyDb.Storage.Recovery

/-!
Replicas over all they have on disk: the store directory and the log file. A process may be
killed between any two file operations, and in the middle of a record it writes.
-/

namespace OhMyDb
open Function (update update_self update_of_ne)
open Records (RecordFile Layout)

/-- What a server keeps on disk. -/
structure Volume where
  directory : Directory
  logFile : RecordFile LogEntry

inductive DiskOp where
  | store (op : FileOp)
  | truncate (newSize : ℕ)
  | write (e : LogEntry)

def DiskOp.run (v : Volume) : DiskOp → Volume
  | .store op => { v with directory := op.run v.directory }
  | .truncate newSize => { v with logFile := v.logFile.truncate newSize }
  | .write e => { v with logFile := v.logFile.write e }

/-- What it does to the bytes of the log file. A record keeps of an entry what `pack` makes of
it: the numbers of a record are machine integers. -/
def DiskOp.bytes {T : Type} (L : Layout T) (pack : LogEntry → T) (bytes : List UInt8) :
    DiskOp → List UInt8
  | .store _ => bytes
  | .truncate newSize => bytes.take (newSize * L.size)
  | .write e => bytes ++ L.encode (pack e)

/-- What `PersistentVector::bootstrap` makes of a file whose records are in line. -/
theorem readFile_denotes {T : Type} {L : Layout T} {f : RecordFile T} {bytes : List UInt8}
    (h : f.Denotes L bytes) (short : bytes.length < 2 ^ 63) (aligned : f.rear ≠ .garbled)
    (transferred : ℕ) (junk : List T) : PersistentVector.readFile L transferred bytes =
      f.read (readable L.size) (transferred / L.size)
        (fun k => L.read (PersistentVector.buffer bytes transferred) (k * L.size)) junk := by
  have split : ∃ tail, tail.length < L.size ∧ bytes = L.encodeAll f.records ++ tail := by
    obtain ⟨records, rear⟩ := f
    cases rear with
    | whole => exact ⟨[], L.size_pos, h.trans (List.append_nil _).symm⟩
    | torn =>
        obtain ⟨tail, _, cut, same⟩ := h
        exact ⟨tail, cut, same⟩
    | garbled => exact absurd rfl aligned
  obtain ⟨tail, cut, rfl⟩ := split
  rw [List.length_append, L.encodeAll_length] at short
  have read := PersistentVector.readFile_encodeAll L f.records tail transferred cut short
  simp only [← Nat.le_div_iff_mul_le L.size_pos, Nat.succ_le_iff] at read
  rw [read]
  unfold RecordFile.read
  split
  · rfl
  · rfl
  · next garbled => exact absurd garbled aligned

/-- What a process that starts with bootstrap is given of the log file: how many bytes `pread`
transfers, what is read in the place of a record that it has not transferred in full, and
what is made of records that are out of line. -/
structure Reading where
  transferred : ℕ
  blank : ℕ → LogEntry
  junk : List LogEntry

namespace Reading

def read (reading : Reading) (size : ℕ) (f : RecordFile LogEntry) : List LogEntry :=
  f.read (readable size) (reading.transferred / size) reading.blank reading.junk

/-- The records that `pread` has not transferred in full read the same. -/
def Transfers (reading : Reading) (size : ℕ) (f : RecordFile LogEntry) : Prop :=
  f.Transferred (readable size) (reading.transferred / size) reading.blank

instance (reading : Reading) (size : ℕ) (f : RecordFile LogEntry) :
    Decidable (reading.Transfers size f) :=
  inferInstanceAs (Decidable (RecordFile.Transferred _ _ _ _))

/-- The process is given what is loaded from the bytes. -/
theorem read_denotes (reading : Reading) {T : Type} {L : Layout T} {pack : LogEntry → T}
    {f : RecordFile LogEntry} {bytes : List UInt8} (h : (f.map pack).Denotes L bytes)
    (short : bytes.length < 2 ^ 63) (aligned : f.rear ≠ .garbled)
    (blank : ∀ k, pack (reading.blank k) =
      L.read (PersistentVector.buffer bytes reading.transferred) (k * L.size)) :
    PersistentVector.readFile L reading.transferred bytes =
      (reading.read L.size f).map pack := by
  rw [readFile_denotes h short aligned reading.transferred (reading.junk.map pack), Reading.read,
    RecordFile.map_read]
  simp only [blank]

end Reading

namespace DiskOp
variable {T : Type} {L : Layout T} {pack : LogEntry → T} {v : Volume} {bytes : List UInt8}

theorem run_denotes (h : (v.logFile.map pack).Denotes L bytes) (op : DiskOp) :
    ((op.run v).logFile.map pack).Denotes L (op.bytes L pack bytes) := by
  cases op with
  | store op => exact h
  | truncate n =>
      rw [run, RecordFile.map_truncate]
      exact h.truncate n
  | write e =>
      rw [run, RecordFile.map_write]
      exact h.write (pack e)

theorem foldl_denotes (h : (v.logFile.map pack).Denotes L bytes) (ops : List DiskOp) :
    ((ops.foldl run v).logFile.map pack).Denotes L (ops.foldl (DiskOp.bytes L pack) bytes) := by
  induction ops generalizing v bytes with
  | nil => exact h
  | cons op ops ih => exact ih (run_denotes h op)

end DiskOp

namespace Locked

/-- The size to which `AppendEntries` at server `q` resizes the log. -/
def cut (q : Int) (c : Cluster) : Locked → Option ℕ
  | .step (.appendDeliver r k now) =>
      match (c.node r).appendThreads[k]? with
      | some { peer, args := some args, .. } => if peer = q then (c.node q).cut args now else none
      | _ => none
  | _ => none

/-- How many calls of `RaftState::persist` come before that. -/
def savesBefore (q : Int) (c : Cluster) : Locked → ℕ
  | .step (.appendDeliver r k _) =>
      match (c.node r).appendThreads[k]? with
      | some { args := some args, .. } =>
          if (c.node q).state.role ≠ .dead ∧ (args.term > (c.node q).state.currentTerm ∨
            (args.term = (c.node q).state.currentTerm ∧ (c.node q).state.role ≠ .follower))
          then 1 else 0
      | _ => 0
  | _ => 0

/-- The log once it has been resized. -/
def resized (q : Int) (c : Cluster) (x : Locked) : LogVector :=
  (x.cut q c).elim (c.node q).state.logs (c.node q).state.logs.resize

/-- The records `PersistentVector::persist` writes. -/
def writes (q : Int) (c : Cluster) (x : Locked) : List LogEntry :=
  match x.act c with
  | none => []
  | some c' => (c'.node q).state.logs.file.drop (x.resized q c).file.length

def stores (base : String) (ps : List PersistentStore) : List DiskOp :=
  (ps.flatMap (PersistentStore.persist base)).map .store

/-- What comes before the records, in order. The log file is cut where it has as many records. -/
def prepares (base : String) (q : Int) (c : Cluster) (x : Locked) : List DiskOp :=
  match x.act c with
  | none => []
  | some _ =>
      stores base ((x.saves q c).take (x.savesBefore q c)) ++
        (((x.cut q c).filter (· ≤ (c.node q).state.logs.persistedItems)).toList.map .truncate) ++
        stores base ((x.saves q c).drop (x.savesBefore q c))

/-- What server `q` does to its disk. -/
def diskOps (base : String) (q : Int) (c : Cluster) (x : Locked) : List DiskOp :=
  x.prepares base q c ++ (x.writes q c).map .write

end Locked

/-- Replicas, and the disks of their servers. -/
structure Machines where
  cluster : Cluster
  volume : Int → Volume

/-- A process does something, or it is killed `n` disk operations into doing it; where the next
one was to write a record, some bytes of this may be written. Some processes follow that start
without bootstrap and are killed as well, each after a number of operations, and one that
gets to the end of `RaftManager::bootstrap`. -/
inductive Happening where
  | locked (x : Locked)
  | crash (r : Int) (x : Locked) (n : ℕ) (torn : Bool) (again : List ℕ) (withBootstrap : Bool)
      (reading : Reading)

namespace Machines
variable (storeDir : Int → String) (size : ℕ)

def base (r : Int) : String := Hosts.storePrefix storeDir r

def diskOps (r : Int) (s : Machines) (x : Locked) : List DiskOp :=
  x.diskOps (base storeDir r) r s.cluster

/-- What `RaftManager::bootstrap` does to the disk. -/
def bootstrapOps (r : Int) (withBootstrap : Bool) : List DiskOp :=
  if withBootstrap = true then []
  else .truncate 0 :: Locked.stores (base storeDir r) (Replica.bootstrapSaves withBootstrap)

/-- What a process leaves that is killed. -/
def killed (s : Machines) (r : Int) (x : Locked) (n : ℕ) (torn : Bool) : Volume :=
  let v := ((s.diskOps storeDir r x).take n).foldl DiskOp.run (s.volume r)
  match torn, (s.diskOps storeDir r x)[n]? with
  | true, some (.write _) => { v with logFile := v.logFile.tear }
  | _, _ => v

/-- What the processes leave that start without bootstrap and are killed. -/
def restarted (r : Int) (again : List ℕ) (v : Volume) : Volume :=
  again.foldl (fun v n => ((bootstrapOps storeDir r false).take n).foldl DiskOp.run v) v

/-- `RaftManager::bootstrap` in a new process. -/
def bootstrap (s : Machines) (r : Int) (v : Volume) (withBootstrap : Bool)
    (reading : Reading) : Machines where
  cluster := s.cluster.set r ((s.cluster.node r).bootstrap withBootstrap
    (PersistentStore.bootstrap (base storeDir r) v.directory) (reading.read size v.logFile))
  volume := update s.volume r ((bootstrapOps storeDir r withBootstrap).foldl DiskOp.run v)

def step (s : Machines) : Happening → Option Machines
  | .locked x => (x.act s.cluster).map fun c =>
      { cluster := c
        volume := fun q => (s.diskOps storeDir q x).foldl DiskOp.run (s.volume q) }
  | .crash r x n torn again withBootstrap reading =>
      if r ∈ s.cluster.servers then
        some (s.bootstrap storeDir size r
          (restarted storeDir r again (s.killed storeDir r x n torn))
          withBootstrap reading)
      else none

/-- Every server calls `RaftManager::bootstrap`. There is no log yet. -/
def launch (servers : List Int) (withBootstrap : Int → Bool) (directory : Int → Directory) :
    Machines where
  cluster :=
    { servers := servers
      node := fun r => Replica.bootstrap { id := r } (withBootstrap r)
        (PersistentStore.bootstrap (base storeDir r) (directory r)) [] }
  volume r := (bootstrapOps storeDir r (withBootstrap r)).foldl DiskOp.run
    { directory := directory r, logFile := {} }

def hosts (s : Machines) : Hosts where
  cluster := s.cluster
  directory r := (s.volume r).directory

end Machines

namespace Locked
variable {base : String} {c c' : Cluster} {x : Locked} {q : Int} {v : Volume}

theorem foldl_stores (ps : List PersistentStore) (v : Volume) :
    (stores base ps).foldl DiskOp.run v = { v with
      directory := (ps.flatMap (PersistentStore.persist base)).foldl FileOp.run v.directory } := by
  unfold stores
  generalize ps.flatMap (PersistentStore.persist base) = ops
  induction ops generalizing v with
  | nil => rfl
  | cons op ops ih => exact ih _

theorem foldl_writes (es : List LogEntry) (v : Volume) :
    (es.map DiskOp.write).foldl DiskOp.run v =
      { v with logFile := es.foldl RecordFile.write v.logFile } := by
  induction es generalizing v with
  | nil => rfl
  | cons e es ih => exact ih _

/-- The log file, once all is done that comes before the records. -/
def resizedFile (q : Int) (c : Cluster) (x : Locked) (f : RecordFile LogEntry) :
    RecordFile LogEntry :=
  ((x.cut q c).filter (· ≤ (c.node q).state.logs.persistedItems)).elim f f.truncate

theorem foldl_prepares (hx : x.act c = some c') (v : Volume) :
    (x.prepares base q c).foldl DiskOp.run v =
      { directory := ((x.saves q c).flatMap (PersistentStore.persist base)).foldl FileOp.run
          v.directory
        logFile := x.resizedFile q c v.logFile } := by
  have split := congrArg (List.flatMap (PersistentStore.persist base))
    (List.take_append_drop (x.savesBefore q c) (x.saves q c))
  rw [List.flatMap_append] at split
  simp only [prepares, hx]
  rw [List.foldl_append, List.foldl_append, foldl_stores, foldl_stores, ← split, List.foldl_append,
    resizedFile]
  cases (x.cut q c).filter (· ≤ (c.node q).state.logs.persistedItems) <;> rfl

/-- What the disk is when the mutex is let go. -/
theorem foldl_diskOps (hx : x.act c = some c') (v : Volume) :
    (x.diskOps base q c).foldl DiskOp.run v =
      { directory := ((x.saves q c).flatMap (PersistentStore.persist base)).foldl FileOp.run
          v.directory
        logFile := (x.writes q c).foldl RecordFile.write (x.resizedFile q c v.logFile) } := by
  rw [diskOps, List.foldl_append, foldl_prepares hx, foldl_writes]

end Locked

namespace Machines
variable {storeDir : Int → String} {size : ℕ} {s s' : Machines} {q r : Int} {v : Volume}

/-- A process that is killed leaves the bytes it has written, and a part of the next record where
this is torn. -/
theorem killed_denotes {T : Type} {L : Layout T} {pack : LogEntry → T} {bytes part : List UInt8}
    {x : Locked} {n : ℕ} {torn : Bool} (h : ((s.volume r).logFile.map pack).Denotes L bytes)
    (some : match torn, (s.diskOps storeDir r x)[n]? with
      | true, some (.write e) =>
          part <+: L.encode (pack e) ∧ part ≠ [] ∧ part ≠ L.encode (pack e)
      | _, _ => part = []) :
    ((s.killed storeDir r x n torn).logFile.map pack).Denotes L
      (((s.diskOps storeDir r x).take n).foldl (DiskOp.bytes L pack) bytes ++ part) := by
  have before := DiskOp.foldl_denotes h ((s.diskOps storeDir r x).take n)
  unfold killed
  split at some
  · next e next =>
    rw [RecordFile.map_tear]
    exact before.tear some.1 some.2.1 some.2.2
  · rw [some, List.append_nil]
    exact before

theorem foldl_bootstrapOps (withBootstrap : Bool) :
    (bootstrapOps storeDir r withBootstrap).foldl DiskOp.run v =
      { directory := (Hosts.fileOps storeDir r (Replica.bootstrapSaves withBootstrap)).foldl
          FileOp.run v.directory
        logFile := if withBootstrap = true then v.logFile else {} } := by
  cases withBootstrap with
  | true => rfl
  | false =>
      have cut : v.logFile.truncate 0 = {} := if_pos (Nat.zero_le _)
      change (Locked.stores _ _).foldl DiskOp.run { v with logFile := v.logFile.truncate 0 } = _
      rw [Locked.foldl_stores, cut]
      rfl

theorem hosts_locked {x : Locked} (hs : s.step storeDir size (.locked x) = some s') :
    s.hosts.step storeDir (.locked x) = some s'.hosts := by
  obtain ⟨c, hx, rfl⟩ := Option.map_eq_some_iff.mp hs
  refine Option.map_eq_some_iff.mpr ⟨c, hx, ?_⟩
  refine congrArg (Hosts.mk c) (funext fun q => ?_)
  exact (congrArg Volume.directory (Locked.foldl_diskOps hx (s.volume q))).symm

theorem hosts_bootstrap (withBootstrap : Bool) (reading : Reading) :
    (s.bootstrap storeDir size r v withBootstrap reading).hosts =
      (Hosts.mk s.cluster (update s.hosts.directory r v.directory)).bootstrap storeDir r
        withBootstrap (reading.read size v.logFile) := by
  have found : update s.hosts.directory r v.directory r = v.directory := update_self _ _ _
  simp only [Hosts.bootstrap, Hosts.loads, found, Function.update_idem]
  refine congrArg (Hosts.mk _) (funext fun q => ?_)
  by_cases e : q = r
  · subst e
    simp only [bootstrap, update_self, foldl_bootstrapOps]
  · simp only [bootstrap, update_of_ne e]
    rfl

theorem hosts_launch (servers : List Int) (withBootstrap : Int → Bool)
    (directory : Int → Directory) : (launch storeDir servers withBootstrap directory).hosts =
      Hosts.launch storeDir servers withBootstrap (fun _ => []) directory := by
  refine congrArg (Hosts.mk _) (funext fun q => ?_)
  simp only [launch, foldl_bootstrapOps]

theorem saved_bootstrap (saved : Hosts.Saved storeDir s.hosts) (v : Volume) (withBootstrap : Bool)
    (reading : Reading) :
    Hosts.Saved storeDir (s.bootstrap storeDir size r v withBootstrap reading).hosts := by
  rw [hosts_bootstrap]
  refine Hosts.Saved.bootstrap (by exact saved.bare) (fun q ne => ?_)
    (by exact fun q _ => saved.stored q) withBootstrap _
  simp only [Hosts.loads, update_of_ne ne]
  exact saved.loads q

/-- Nothing of the vote is in memory only. -/
theorem saved_preserved {e : Happening} (saved : Hosts.Saved storeDir s.hosts)
    (hs : s.step storeDir size e = some s') : Hosts.Saved storeDir s'.hosts := by
  cases e with
  | locked x => exact saved.preserved (hosts_locked hs)
  | crash r x n torn again withBootstrap reading =>
      obtain ⟨_, rfl⟩ := Option.ite_none_right_eq_some.mp hs |>.imp_right Option.some.inj
      exact saved_bootstrap saved _ withBootstrap reading

end Machines
end OhMyDb
