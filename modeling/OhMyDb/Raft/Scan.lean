import Mathlib.Order.Bounds.Basic
import OhMyDb.Raft.History

/-!
The commit rule of a leader, in any state. The scan goes through the whole rest of the
log and keeps the last index that passes both tests; reading `MatchIndex` may put
missing peers into it, which no later test can tell.
-/

namespace OhMyDb
open Execution

namespace IntMap
variable {m m' m'' : IntMap Int} {k : Int}

/-- What `operator[]` yields. -/
def read (m : IntMap Int) (k : Int) : Int := (m.subscript k 0).1

theorem read_of_lookup {v : Int} (h : m.lookup k = some v) : m.read k = v := by
  rw [read, subscript_of_lookup h]

/-- Some missing keys have been put in by reading them. -/
structure Fills (m m' : IntMap Int) : Prop where
  lookup : ∀ k v, m.lookup k = some v → m'.lookup k = some v
  read : ∀ k, m'.read k = m.read k

theorem Fills.refl (m : IntMap Int) : Fills m m :=
  ⟨fun _ _ h => h, fun _ => rfl⟩

theorem Fills.trans (h : Fills m m') (h' : Fills m' m'') : Fills m m'' :=
  ⟨fun k v found => h'.lookup k v (h.lookup k v found),
    fun k => (h'.read k).trans (h.read k)⟩

theorem fills_subscript (m : IntMap Int) (k : Int) : Fills m (m.subscript k 0).2 := by
  unfold subscript
  split
  · exact .refl m
  · next missing =>
    have kept (j : Int) (ne : j ≠ k) :
        AList.lookup j (m.insert k 0) = m.lookup j := AList.lookup_insert_ne ne
    refine ⟨fun j v found => ?_, fun j => ?_⟩
    · rw [kept j (by rintro rfl; rw [missing] at found; cases found), found]
    · by_cases e : j = k
      · subst e
        rw [read_of_lookup (AList.lookup_insert m), read, subscript, missing]
      · unfold read subscript
        rw [kept j e]
        cases m.lookup j <;> rfl

end IntMap

namespace Replica
variable {r x : Replica} {s : RaftState} {id : Int} {peers : List Int}

/-- The count of the scan. -/
def matchCount (id : Int) (peers : List Int) (s : RaftState) (i : Int) : Int :=
  (if id ∈ s.clusterConfig then 1 else 0) + peers.countP fun p => i ≤ s.matchIndex.read p

/-- The index passes both tests of the scan. -/
def Committable (id : Int) (peers : List Int) (s : RaftState) (i : Int) : Prop :=
  (s.logs.at? i).map (·.term) = some s.currentTerm ∧
    matchCount id peers s i * 2 > s.clusterConfig.size

instance (id : Int) (peers : List Int) (s : RaftState) (i : Int) :
    Decidable (Committable id peers s i) :=
  inferInstanceAs (Decidable (_ ∧ _))

theorem countMatches_fills (i : Int) (ps : List Int) (m : IntMap Int) :
    (countMatches i ps m).1 = ps.countP (fun p => i ≤ m.read p) ∧
      m.Fills (countMatches i ps m).2 := by
  induction ps generalizing m with
  | nil => exact ⟨rfl, .refl m⟩
  | cons p ps ih =>
      have first := m.fills_subscript p
      obtain ⟨count, rest⟩ := ih (m.subscript p 0).2
      refine ⟨?_, first.trans rest⟩
      change (if m.read p ≥ i then 1 else 0) + (countMatches i ps (m.subscript p 0).2).1 = _
      simp only [count, first.read, List.countP_cons]
      by_cases le : i ≤ m.read p
      · simp [le, Int.add_comm]
      · simp [le]

/-- What earlier rounds have done to the state does not change a test. -/
theorem commitStep_fills {m : IntMap Int} (fills : s.matchIndex.Fills m) (c i : Int) :
    ∃ m', s.matchIndex.Fills m' ∧
      commitStep id peers { s with matchIndex := m, commitIndex := c } i =
        { s with
          matchIndex := m'
          commitIndex := if Committable id peers s i then i else c } := by
  obtain ⟨count, more⟩ := countMatches_fills i peers m
  have tally : (if id ∈ s.clusterConfig then 1 else 0) + (countMatches i peers m).1 =
      matchCount id peers s i := by
    rw [count, matchCount]
    simp only [fills.read]
  simp only [commitStep]
  by_cases term : (s.logs.at? i).map (·.term) = some s.currentTerm
  · rw [if_pos term, tally]
    by_cases most : matchCount id peers s i * 2 > s.clusterConfig.size
    · rw [if_pos most, if_pos ⟨term, most⟩]
      exact ⟨_, fills.trans more, rfl⟩
    · rw [if_neg most, if_neg fun h => most h.2]
      exact ⟨_, fills.trans more, rfl⟩
  · rw [if_neg term, if_neg fun h => term h.1]
    exact ⟨m, fills, rfl⟩

/-- The scan finds the greatest index that passes, or stays where it was. -/
def Found (P : Int → Prop) (before bound after : Int) : Prop :=
  (after = before ∧ ∀ i, before < i → i < bound → ¬ P i) ∨
    IsGreatest {i | before < i ∧ i < bound ∧ P i} after

theorem Found.next {P : Int → Prop} [DecidablePred P] {before bound after : Int}
    (h : Found P before bound after) (lt : before < bound) :
    Found P before (bound + 1) (if P bound then bound else after) := by
  split
  · next passes => exact Or.inr ⟨⟨lt, Int.lt_succ _, passes⟩,
      fun i hi => Int.lt_add_one_iff.mp hi.2.1⟩
  · next fails =>
    have earlier {i : Int} (below : i < bound + 1) (passes : P i) : i < bound := by
      refine lt_of_le_of_ne (Int.lt_add_one_iff.mp below) ?_
      rintro rfl
      exact fails passes
    rcases h with ⟨same, none⟩ | ⟨⟨past, below, passes⟩, most⟩
    · exact Or.inl ⟨same, fun i past below passes => none i past (earlier below passes) passes⟩
    · exact Or.inr ⟨⟨past, below.trans (Int.lt_succ _), passes⟩,
        fun i hi => most ⟨hi.1, earlier hi.2.1 hi.2.2, hi.2.2⟩⟩

theorem commitScan_found (id : Int) (peers : List Int) (s : RaftState) :
    ∃ m c, s.matchIndex.Fills m ∧
      Found (Committable id peers s) s.commitIndex s.logs.size c ∧
      commitScan id peers s = { s with matchIndex := m, commitIndex := c } := by
  -- the rounds so far have found the greatest of the indices they have seen
  have rounds (n : ℕ) : ∃ m c, s.matchIndex.Fills m ∧
      Found (Committable id peers s) s.commitIndex (s.commitIndex + 1 + n) c ∧
      (List.range n).foldl (fun t (j : Nat) => commitStep id peers t (s.commitIndex + 1 + j)) s =
        { s with matchIndex := m, commitIndex := c } := by
    induction n with
    | zero => exact ⟨_, _, .refl _, Or.inl ⟨rfl, fun i past below => by omega⟩, rfl⟩
    | succ n ih =>
        obtain ⟨m, c, fills, found, eq⟩ := ih
        obtain ⟨m', fills', step⟩ :=
          @commitStep_fills s id peers m fills c (s.commitIndex + 1 + n)
        have next := found.next (by omega)
        rw [Int.add_assoc (s.commitIndex + 1) n 1] at next
        refine ⟨m', _, fills', next, ?_⟩
        rw [List.range_succ, List.foldl_append, eq]
        exact step
  by_cases short : s.logs.size ≤ s.commitIndex + 1
  · refine ⟨s.matchIndex, s.commitIndex, .refl _,
      Or.inl ⟨rfl, fun i past below => by omega⟩, ?_⟩
    rw [commitScan, Int.toNat_eq_zero.mpr (by omega)]
    rfl
  · obtain ⟨m, c, fills, found, eq⟩ := rounds (s.logs.size - (s.commitIndex + 1)).toNat
    rw [show s.commitIndex + 1 + ((s.logs.size - (s.commitIndex + 1)).toNat : Int) = s.logs.size by
      omega] at found
    exact ⟨m, c, fills, found, eq⟩

/-- There is nothing in the log before its beginning. -/
theorem newlyCommitted_below (low : s.lastApplied < -1) :
    newlyCommitted s = newlyCommitted { s with lastApplied := -1 } := by
  have outside {j : ℕ} (neg : s.lastApplied + 1 + j < 0) :
      ((s.logs.at? (s.lastApplied + 1 + j)).map fun e => (s.lastApplied + 1 + (j : Int), e.op)) =
        none := by
    rw [LogVector.at?, if_neg (by omega)]
    rfl
  obtain ⟨d, zero⟩ : ∃ d : ℕ, s.lastApplied + 1 + d = 0 := ⟨(-1 - s.lastApplied).toNat, by omega⟩
  simp only [newlyCommitted]
  by_cases neg : s.commitIndex ≤ -1
  · rw [show (s.commitIndex - -1).toNat = 0 by omega]
    refine List.filterMap_eq_nil_iff.mpr fun j hj => outside ?_
    have := List.mem_range.mp hj
    omega
  · rw [show (s.commitIndex - s.lastApplied).toNat = d + (s.commitIndex - -1).toNat by omega,
      List.range_add, List.filterMap_append, List.filterMap_map, List.filterMap_eq_nil_iff.mpr,
      List.nil_append]
    · refine congrArg (List.filterMap · _) (funext fun j => ?_)
      have index : s.lastApplied + 1 + ((d + j : ℕ) : Int) = -1 + 1 + (j : Int) := by omega
      simp only [Function.comp_apply, index]
    · intro j hj
      have := List.mem_range.mp hj
      exact outside (by omega)

/-- What is queued, in order. -/
theorem newlyCommitted_queued (s : RaftState) : (newlyCommitted s).map (·.2) =
    ((s.logs.items.take (s.commitIndex + 1).toNat).drop (s.lastApplied + 1).toNat).map (·.op) := by
  have above (s : RaftState) (floor : -1 ≤ s.lastApplied) : (newlyCommitted s).map (·.2) =
      ((s.logs.items.take (s.commitIndex + 1).toNat).drop
        (s.lastApplied + 1).toNat).map (·.op) := by
    rw [newlyCommitted_ops floor, List.drop_take]
    congr 2
    omega
  by_cases low : s.lastApplied < -1
  · rw [newlyCommitted_below low, above _ le_rfl, show (s.lastApplied + 1).toNat = 0 by omega]
    rfl
  · exact above s (by omega)

/-- The reply handler of a leader, where the request has been accepted. -/
theorem appendReply_scans {saved : Int} {reply : AppendEntriesRet}
    (leads : r.state.role = .leader) (term : saved = reply.term) (ok : reply.success = true)
    (id nextIndex : Int) (n : ℕ) (now : Int) :
    let s := { r.state with
      nextIndex := r.state.nextIndex.insert id (nextIndex + n)
      matchIndex := r.state.matchIndex.insert id (nextIndex + n - 1) }
    ∃ m c, s.matchIndex.Fills m ∧
      Found (Committable r.id r.peers.keys s) r.state.commitIndex r.state.logs.size c ∧
      r.appendReply id saved nextIndex n reply now =
        if c ≠ r.state.commitIndex then
          { r with
            state := { s with matchIndex := m, commitIndex := c }
            hist := .committed { s with matchIndex := m, commitIndex := c } ::
              r.hist }.queueCommitted
        else { r with state := { s with matchIndex := m, commitIndex := c } } := by
  intro s
  obtain ⟨m, c, fills, found, eq⟩ := commitScan_found r.id r.peers.keys s
  have current : ¬ reply.term > saved := by omega
  refine ⟨m, c, fills, found, ?_⟩
  simp only [appendReply, if_neg current, if_pos (And.intro leads term), if_pos ok]
  rw [eq]

/-- The reply handler of a leader: `CommitIndex` goes to the greatest index of the present
term that a majority has, if there is one, and all that was not queued yet up to there is
queued. Where it stays, there is nothing to queue if everything up to it has been. -/
theorem appendReply_commits {saved nextIndex now : Int} {n : ℕ} {reply : AppendEntriesRet}
    (leads : r.state.role = .leader) (term : saved = reply.term) (ok : reply.success = true) :
    let s := { r.state with
      nextIndex := r.state.nextIndex.insert id (nextIndex + n)
      matchIndex := r.state.matchIndex.insert id (nextIndex + n - 1) }
    let x := r.appendReply id saved nextIndex n reply now
    Found (Committable r.id r.peers.keys s) r.state.commitIndex r.state.logs.size
        x.state.commitIndex ∧
      (x.state.commitIndex ≠ r.state.commitIndex ∨ r.state.lastApplied = r.state.commitIndex →
        x.raftOut = r.raftOut ++ ((r.state.logs.items.take (x.state.commitIndex + 1).toNat).drop
          (r.state.lastApplied + 1).toNat).map (·.op) ∧
        x.state.lastApplied = x.state.commitIndex) ∧
      (x.state.commitIndex = r.state.commitIndex → x.raftOut = r.raftOut) := by
  intro s x
  obtain ⟨m, c, _, found, handled⟩ := r.appendReply_scans leads term ok id nextIndex n now
  change x = _ at handled
  by_cases same : c = r.state.commitIndex
  · rw [handled, if_neg (not_not_intro same)]
    refine ⟨found, fun settled => ?_, fun _ => rfl⟩
    have applied := settled.resolve_left (not_not_intro same)
    refine ⟨?_, applied.trans same.symm⟩
    change r.raftOut = r.raftOut ++ ((r.state.logs.items.take (c + 1).toNat).drop _).map _
    rw [same, applied, List.drop_of_length_le (List.length_take_le _ _), List.map_nil,
      List.append_nil]
  · rw [handled, if_pos same]
    refine ⟨found, fun _ => ⟨?_, rfl⟩, fun still => absurd still same⟩
    change r.raftOut ++ _ = _
    rw [newlyCommitted_queued]
    rfl

/-- Three entries, the first two of an earlier term; the leader and server 2 have them all. -/
def scanning : Replica where
  id := 1
  state := {
    currentTerm := 2
    role := .leader
    logs := { items := [⟨1, ⟨.put 1 1, none⟩⟩, ⟨1, ⟨.put 2 2, none⟩⟩, ⟨2, ⟨.put 3 3, none⟩⟩] }
    clusterConfig := (((∅ : IntMap ServerInfo).insert 1 .zero).insert 2 .zero).insert 3 .zero }
  peers := ((∅ : IntMap Unit).insert 2 ()).insert 3 ()

theorem appendReply_commits_scanning :
    IsGreatest {i | -1 < i ∧ i < 3 ∧ Committable 1 [3, 2] { scanning.state with
        nextIndex := scanning.state.nextIndex.insert 2 3
        matchIndex := scanning.state.matchIndex.insert 2 2 } i} 2 ∧
      (scanning.appendReply 2 2 0 3 ⟨2, true⟩ 0).raftOut =
        [⟨.put 1 1, none⟩, ⟨.put 2 2, none⟩, ⟨.put 3 3, none⟩] := by
  obtain ⟨found, out, _⟩ := @appendReply_commits scanning 2 2 0 0 3 ⟨2, true⟩ rfl rfl rfl
  refine ⟨?_, (out (Or.inr rfl)).1⟩
  rcases found with ⟨same, _⟩ | greatest
  · exact absurd same (by decide)
  · exact greatest

end Replica

/-- `LastApplied` follows `CommitIndex` under one lock, so the handler always finds the two
equal. -/
theorem Cluster.applied {servers : List Int} {config : Int → IntMap ServerInfo}
    {h : List (Cluster × Action)} {c : Cluster}
    (run : Run Cluster.step (Cluster.launch servers config) h c) (q : Int) :
    -1 ≤ (c.node q).state.commitIndex ∧
      (c.node q).state.lastApplied = (c.node q).state.commitIndex := by
  refine Cluster.replicas_invariant (I := fun _ r => -1 ≤ r.state.commitIndex ∧
    r.state.lastApplied = r.state.commitIndex) run (fun p _ => p.1.abides_free p.2) ?_ ?_ q
  · intro q
    have fresh := Replica.initialise_fresh q (config q)
    rw [fresh.commitIndex, fresh.lastApplied]
    exact ⟨le_rfl, rfl⟩
  · intro q r r' same ch
    cases ch with
    | commit i range inside =>
        refine ⟨?_, rfl⟩
        change -1 ≤ i
        have := same.1
        unfold LogVector.size at range
        omega
    | update saved u rest _ _ | updateHandler j x u _ _ _ => cases u <;> exact same
    | _ => exact same

end OhMyDb
