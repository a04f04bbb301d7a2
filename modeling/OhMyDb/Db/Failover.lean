import OhMyDb.Lib.Sweep
import OhMyDb.Model.Client
import OhMyDb.Raft.Handlers

/-!
Which servers `ReplicatedDB` turns to when its RPCs fail. The index is compared with the size
of a map that `operator[]` fills while it is scanned, and that stays filled for later calls.
-/

namespace OhMyDb

/-- A round of `get` or `put` whose RPC has failed: the index it has read `serverInfo_` with,
the address it has turned to, and the index for the next such round. -/
structure Failover where
  selected : Nat
  contacted : String
  next : Nat
  deriving DecidableEq

/-- A call with the outcomes of its RPCs. -/
inductive ClientCall where
  | get (rpcs : List (Option GetResponse))
  | put (rpcs : List (Option PutResponse))

def ClientCall.rets : ClientCall → List (Option Ret)
  | .get rpcs => rpcs.map OhMyDBClient.get
  | .put rpcs => rpcs.map OhMyDBClient.put

/-- `operator[]` leaves the entries of a map as they are. -/
theorem IntMap.lookup_subscript_of_some {V : Type} {m : IntMap V} {id : Int} {v : V} (k : Int)
    (dflt : V) (known : m.lookup id = some v) : (m.subscript k dflt).2.lookup id = some v := by
  unfold subscript
  split
  · exact known
  · next missing =>
    have other : id ≠ k := by
      rintro rfl
      rw [known] at missing
      cases missing
    rwa [AList.lookup_insert_ne other]

namespace ReplicatedDB

/-- The client after a call. -/
def call (db : ReplicatedDB) : ClientCall → ReplicatedDB
  | .get rpcs => (db.get rpcs).2
  | .put rpcs => (db.put rpcs).2

/-- The failed rounds of either loop, and the client after it. -/
def rounds : Nat → Nat → ReplicatedDB → List (Option Ret) → List Failover × ReplicatedDB
  | 0, _, db, _ => ([], db)
  | _ + 1, _, db, [] => ([], db)
  | iters + 1, backupID, db, none :: rets =>
      let backup := db.contactBackup backupID
      let later := rounds iters backup.2 backup.1 rets
      (⟨backupID, backup.1.channel, backup.2⟩ :: later.1, later.2)
  | iters + 1, backupID, db, some ret :: rets =>
      if ret.errorCode = .notLeader then
        rounds iters backupID (db.updateChannel ret.leaderAddr) rets
      else ([], db)

def failovers (db : ReplicatedDB) (call : ClientCall) : List Failover :=
  (rounds MAX_TRIES 0 db call.rets).1

theorem putLoop_eq_rounds (iters backupID : Nat) (db : ReplicatedDB)
    (rpcs : List (Option PutResponse)) : (putLoop iters backupID db rpcs).2 =
      (rounds iters backupID db (rpcs.map OhMyDBClient.put)).2 := by
  induction iters, backupID, db, rpcs using putLoop.induct with
  | case1 | case2 => rfl
  | case3 iters backupID db rpc rpcs failed ih => simpa [putLoop, rounds, failed] using ih
  | case4 iters backupID db rpc rpcs ret got refused ih =>
      simpa [putLoop, rounds, got, refused] using ih
  | case5 _ _ db rpc rpcs ret got code | case6 _ _ db rpc rpcs ret got code =>
      simp [putLoop, rounds, got, code]

theorem getLoop_eq_rounds (iters backupID : Nat) (db : ReplicatedDB)
    (rpcs : List (Option GetResponse)) : (getLoop iters backupID db rpcs).2 =
      (rounds iters backupID db (rpcs.map OhMyDBClient.get)).2 := by
  induction iters, backupID, db, rpcs using getLoop.induct with
  | case1 | case2 => rfl
  | case3 iters backupID db rpc rpcs failed ih => simpa [getLoop, rounds, failed] using ih
  | case4 iters backupID db rpc rpcs ret got refused ih =>
      simpa [getLoop, rounds, got, refused] using ih
  | case5 _ _ db rpc rpcs ret got code | case6 _ _ db rpc rpcs ret got code =>
      simp [getLoop, rounds, got, code]

theorem call_eq_rounds (db : ReplicatedDB) (c : ClientCall) :
    db.call c = (rounds MAX_TRIES 0 db c.rets).2 := by
  cases c with
  | get rpcs => exact getLoop_eq_rounds _ _ db rpcs
  | put rpcs => exact putLoop_eq_rounds _ _ db rpcs

/-! One round, and the loop. -/

theorem contactBackup_next (db : ReplicatedDB) (backupID : Nat) :
    (db.contactBackup backupID).2 = Sweep.next db.serverInfo.servers backupID := by
  unfold Sweep.next
  rw [← IntMap.servers_subscript, IntMap.card_servers]
  rfl

/-- The ids the client knows are those of `serverInfo` and some below `M`, and it knows what
`serverInfo` says of its servers. -/
structure Scans (serverInfo : IntMap ServerInfo) (M : ℕ) (db : ReplicatedDB) (backupID : ℕ) :
    Prop where
  ahead : Sweep.Ahead M db.serverInfo.servers backupID
  keeps : ∀ id (info : ServerInfo), serverInfo.lookup id = some info →
    db.serverInfo.lookup id = some info

/-- The steps of a scan that goes round the ids up to `M`. -/
structure GoesRound (serverInfo : IntMap ServerInfo) (M first : ℕ) (steps : List Failover) :
    Prop where
  selected : ∀ k f, steps[k]? = some f → f.selected = (first + k) % (M + 1)
  next : ∀ k f, steps[k]? = some f → f.next = (first + k + 1) % (M + 1)
  contacted : ∀ f ∈ steps, ∀ info : ServerInfo,
    serverInfo.lookup (f.selected : Int) = some info → f.contacted = dbAddr info

section
variable {serverInfo : IntMap ServerInfo} {M backupID : ℕ} {db : ReplicatedDB}

theorem Scans.contactBackup (h : Scans serverInfo M db backupID) :
    Scans serverInfo M (db.contactBackup backupID).1 (db.contactBackup backupID).2 where
  ahead := by
    rw [contactBackup_next]
    have entered := h.ahead.step
    rwa [← IntMap.servers_subscript _ _ ServerInfo.zero] at entered
  keeps id info known :=
    IntMap.lookup_subscript_of_some backupID ServerInfo.zero (h.keeps id info known)

theorem Scans.next_eq (h : Scans serverInfo M db backupID) :
    (db.contactBackup backupID).2 = (backupID + 1) % (M + 1) :=
  (db.contactBackup_next backupID).trans h.ahead.next_eq

theorem Scans.channel (h : Scans serverInfo M db backupID) {info : ServerInfo}
    (known : serverInfo.lookup (backupID : Int) = some info) :
    (db.contactBackup backupID).1.channel = dbAddr info := by
  simp only [ReplicatedDB.contactBackup, IntMap.subscript, h.keeps _ _ known]
  rfl

theorem GoesRound.nil (first : ℕ) : GoesRound serverInfo M first [] :=
  ⟨fun _ _ at_ => by simp at at_, fun _ _ at_ => by simp at at_,
    fun _ mem => absurd mem List.not_mem_nil⟩

theorem GoesRound.cons {f : Failover} {steps : List Failover} (le : f.selected ≤ M)
    (next : f.next = (f.selected + 1) % (M + 1))
    (contacted : ∀ info : ServerInfo,
      serverInfo.lookup (f.selected : Int) = some info → f.contacted = dbAddr info)
    (later : GoesRound serverInfo M f.next steps) :
    GoesRound serverInfo M f.selected (f :: steps) where
  selected k g at_ := by
    cases k with
    | zero =>
        cases at_
        exact (Nat.mod_eq_of_lt (Nat.lt_succ_of_le le)).symm
    | succ k =>
        rw [later.selected k g at_, next, Nat.mod_add_mod, Nat.add_assoc, Nat.add_comm 1 k]
  next k g at_ := by
    cases k with
    | zero =>
        cases at_
        exact next
    | succ k =>
        rw [later.next k g at_, next, Nat.add_assoc, Nat.mod_add_mod]
        congr 1
        omega
  contacted g mem := by
    rcases List.mem_cons.mp mem with rfl | mem
    · exact contacted
    · exact later.contacted g mem

theorem Scans.rounds (h : Scans serverInfo M db backupID) (iters : ℕ) (rets : List (Option Ret)) :
    GoesRound serverInfo M backupID (rounds iters backupID db rets).1 ∧
      ∃ b, Scans serverInfo M (ReplicatedDB.rounds iters backupID db rets).2 b := by
  induction iters, backupID, db, rets using rounds.induct with
  | case1 | case2 => exact ⟨.nil _, _, h⟩
  | case3 iters backupID db rets backup ih =>
      obtain ⟨later, still⟩ := ih h.contactBackup
      refine ⟨?_, still⟩
      apply GoesRound.cons (f := ⟨backupID, backup.1.channel, backup.2⟩)
      · exact h.ahead.le
      · exact h.next_eq
      · exact fun info known => h.channel known
      · exact later
  | case4 iters backupID db ret rets refused ih =>
      rw [ReplicatedDB.rounds, if_pos refused]
      exact ih ⟨h.ahead, h.keeps⟩
  | case5 iters backupID db ret rets answered =>
      rw [ReplicatedDB.rounds, if_neg answered]
      exact ⟨.nil _, _, h⟩

theorem Scans.call (h : Scans serverInfo M db 0) (c : ClientCall) :
    Scans serverInfo M (db.call c) 0 := by
  obtain ⟨b, after⟩ := (h.rounds MAX_TRIES c.rets).2
  rw [call_eq_rounds]
  exact ⟨.start after.ahead.range after.ahead.top, after.keeps⟩

theorem Scans.calls (h : Scans serverInfo M db 0) (cs : List ClientCall) :
    Scans serverInfo M (cs.foldl ReplicatedDB.call db) 0 := by
  induction cs generalizing db with
  | nil => exact h
  | cons c cs ih => exact ih (h.call c)

end

/-- No id is negative, and `M` is the largest. -/
structure LargestId (serverInfo : IntMap ServerInfo) (M : ℕ) : Prop where
  nonneg : ∀ id ∈ serverInfo, 0 ≤ id
  greatest : IsGreatest {id | id ∈ serverInfo} (M : Int)

theorem LargestId.scans {serverInfo : IntMap ServerInfo} {M : ℕ} (h : LargestId serverInfo M) :
    Scans serverInfo M (create serverInfo) 0 where
  ahead := by
    have known : (create serverInfo).serverInfo.servers = insert 0 serverInfo.servers :=
      serverInfo.servers_subscript 0 .zero
    apply Sweep.Ahead.start
    · intro id mem
      rw [known, Finset.mem_insert, IntMap.mem_servers] at mem
      rcases mem with rfl | mem
      · exact ⟨le_rfl, Int.natCast_nonneg M⟩
      · exact ⟨h.nonneg id mem, h.greatest.2 mem⟩
    · rw [known]
      exact Finset.mem_insert_of_mem ((IntMap.mem_servers _).mpr h.greatest.1)
  keeps id info known := IntMap.lookup_subscript_of_some 0 ServerInfo.zero known

/-- The failover steps of a call go through the ids from 0 to `M` in a circle, and turn to the
servers that were configured. -/
structure Covers (serverInfo : IntMap ServerInfo) (M : ℕ) (steps : List Failover) : Prop where
  circle : ∀ k f, steps[k]? = some f →
    f.selected = k % (M + 1) ∧ f.next = (k + 1) % (M + 1)
  once : ∀ window, window <:+: steps → window.length = M + 1 →
    (window.map Failover.selected).Perm (List.range (M + 1))
  configured : ∀ window, window <:+: steps → window.length = M + 1 →
    ∀ id (info : ServerInfo), serverInfo.lookup id = some info →
      ∃ f ∈ window, (f.selected : Int) = id ∧ f.contacted = dbAddr info
  returns : ∀ f ∈ steps, f.selected = M → f.next = 0

namespace GoesRound
variable {serverInfo : IntMap ServerInfo} {M : ℕ} {steps window : List Failover}

theorem circle (h : GoesRound serverInfo M 0 steps) (k : ℕ) (f : Failover)
    (at_ : steps[k]? = some f) : f.selected = k % (M + 1) ∧ f.next = (k + 1) % (M + 1) := by
  have selected := h.selected k f at_
  have next := h.next k f at_
  rw [Nat.zero_add] at selected next
  exact ⟨selected, next⟩

theorem once (h : GoesRound serverInfo M 0 steps) (part : window <:+: steps)
    (whole : window.length = M + 1) :
    (window.map Failover.selected).Perm (List.range (M + 1)) := by
  obtain ⟨before, after, rfl⟩ := part
  have length : (window.map Failover.selected).length = M + 1 := by
    rw [List.length_map, whole]
  rw [← length]
  apply Sweep.perm_range
  intro k lt
  rw [List.length_map] at lt
  have at_ : (before ++ window ++ after)[before.length + k]? = some window[k] := by
    rw [List.append_assoc, List.getElem?_append_right (Nat.le_add_right _ _),
      Nat.add_sub_cancel_left, List.getElem?_append_left lt, List.getElem?_eq_getElem lt]
  rw [List.getElem_map, h.selected _ _ at_, length, Nat.zero_add]

theorem covers (h : GoesRound serverInfo M 0 steps) (ids : LargestId serverInfo M) :
    Covers serverInfo M steps where
  circle := h.circle
  once window part whole := h.once part whole
  configured window part whole id info known := by
    have mem : id ∈ serverInfo := AList.lookup_isSome.mp (by rw [known]; rfl)
    obtain ⟨n, rfl⟩ := Int.eq_ofNat_of_zero_le (ids.nonneg id mem)
    have le : n ≤ M := Int.ofNat_le.mp (ids.greatest.2 mem)
    have selected : n ∈ window.map Failover.selected :=
      (h.once part whole).mem_iff.mpr (List.mem_range.mpr (Nat.lt_succ_of_le le))
    obtain ⟨f, inside, rfl⟩ := List.mem_map.mp selected
    exact ⟨f, inside, rfl, h.contacted f (part.subset inside) info known⟩
  returns f mem last := by
    obtain ⟨k, at_⟩ := List.mem_iff_getElem?.mp mem
    obtain ⟨selected, next⟩ := h.circle k f at_
    rw [next, ← Nat.mod_add_mod, ← selected, last, Nat.mod_self]

end GoesRound

/-- In every call of a client, whatever calls it has made before. -/
theorem failovers_cover {serverInfo : IntMap ServerInfo} {M : ℕ} (ids : LargestId serverInfo M)
    (earlier : List ClientCall) (c : ClientCall) :
    Covers serverInfo M ((earlier.foldl call (create serverInfo)).failovers c) :=
  ((ids.scans.calls earlier).rounds MAX_TRIES c.rets).1.covers ids

/-- Servers 0 and 2 have been removed. -/
def gaps : IntMap ServerInfo :=
  AList.insert 3 ⟨3, "10.0.0.3", 8080, 8081, "d"⟩
    (AList.insert 1 ⟨1, "10.0.0.1", 8080, 8081, "b"⟩ ∅)

theorem gaps_largest : LargestId gaps 3 where
  nonneg id mem := by
    simp only [gaps, AList.mem_insert, AList.notMem_empty, or_false] at mem
    omega
  greatest := by
    refine ⟨by simp [gaps], fun id mem => ?_⟩
    simp only [gaps, Set.mem_ofPred_eq, AList.mem_insert, AList.notMem_empty, or_false] at mem
    omega

theorem failovers_cover_gaps :
    Covers gaps 3 (([.get [none, none]].foldl call (create gaps)).failovers
      (.put (List.replicate 8 none))) ∧
    (([.get [none, none]].foldl call (create gaps)).failovers
      (.put (List.replicate 8 none))).map Failover.selected = [0, 1, 2, 3, 0, 1, 2, 3] :=
  ⟨failovers_cover gaps_largest [.get [none, none]] (.put (List.replicate 8 none)),
    by decide +kernel⟩

end ReplicatedDB
end OhMyDb
