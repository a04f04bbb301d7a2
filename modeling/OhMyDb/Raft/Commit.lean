import OhMyDb.Raft.Frame

/-!
The commit rule of the reply handler. With an entry in `MatchIndex` for every
peer the scan is a pure search: it leaves the maps alone and ends either where it
began or at an index that a majority has reported, whose entry is of the present
term.
-/

namespace OhMyDb

namespace IntMap
variable {V : Type} {m : IntMap V} {k : Int} {v : V}

theorem subscript_of_lookup (h : m.lookup k = some v) (dflt : V) :
    m.subscript k dflt = (v, m) := by
  rw [subscript, h]

/-- A value that is read is in the map already, or is the default. -/
theorem lookup_subscript {dflt : V} {j : Int}
    (h : (m.subscript k dflt).2.lookup j = some v) : m.lookup j = some v ∨ v = dflt := by
  unfold subscript at h
  split at h
  · exact Or.inl h
  · by_cases e : j = k
    · subst e
      rw [AList.lookup_insert] at h
      exact Or.inr (Option.some.inj h).symm
    · rw [AList.lookup_insert_ne e] at h
      exact Or.inl h

theorem subscript_value {dflt : V} (h : (m.subscript k dflt).1 = v) :
    m.lookup k = some v ∨ v = dflt := by
  unfold subscript at h
  split at h
  · next x hx => exact Or.inl (h ▸ hx)
  · exact Or.inr h.symm

/-- The maps `becomeLeader` builds. -/
theorem lookup_foldl_insert (ps : List Int) (m : IntMap V) (v : V) (k : Int) :
    (ps.foldl (fun m p => m.insert p v) m).lookup k =
      if k ∈ ps then some v else m.lookup k := by
  induction ps generalizing m with
  | nil => simp
  | cons p ps ih =>
      rw [List.foldl_cons, ih]
      by_cases e : k = p
      · subst e
        simp [AList.lookup_insert]
      · simp [e, AList.lookup_insert_ne]

end IntMap

namespace Replica

/-- The peer has reported to hold the entry at `i`. -/
def reports (m : IntMap Int) (i p : Int) : Bool :=
  match m.lookup p with
  | some v => decide (i ≤ v)
  | none => false

theorem countMatches_eq {ps : List Int} {m : IntMap Int} (present : ∀ p ∈ ps, p ∈ m) (i : Int) :
    countMatches i ps m = ((ps.countP (reports m i) : Int), m) := by
  induction ps with
  | nil => rfl
  | cons p ps ih =>
      obtain ⟨v, hv⟩ := Option.isSome_iff_exists.mp (AList.lookup_isSome.mpr
        (present p List.mem_cons_self))
      rw [countMatches, IntMap.subscript_of_lookup hv]
      simp only
      rw [ih fun q hq => present q (List.mem_cons_of_mem p hq)]
      have self : reports m i p = decide (v ≥ i) := by rw [reports, hv]
      rw [List.countP_cons, self]
      by_cases le : v ≥ i
      · simp [le, Int.add_comm]
      · simp [le]

/-- What the scan has found out about an index it commits. -/
structure Counted (id : Int) (peers : List Int) (s : RaftState) (i : Int) : Prop where
  term : (s.logs.at? i).map (·.term) = some s.currentTerm
  most : ((if id ∈ s.clusterConfig then 1 else 0) +
    (peers.countP (reports s.matchIndex i) : Int)) * 2 > s.clusterConfig.size

theorem commitStep_eq {id : Int} {peers : List Int} {s : RaftState}
    (present : ∀ p ∈ peers, p ∈ s.matchIndex) (i : Int) :
    commitStep id peers s i = s ∨
      (Counted id peers s i ∧ commitStep id peers s i = { s with commitIndex := i }) := by
  simp only [commitStep, countMatches_eq present]
  by_cases term : (s.logs.at? i).map (·.term) = some s.currentTerm
  · rw [if_pos term]
    by_cases most : ((if id ∈ s.clusterConfig then 1 else 0) +
        (peers.countP (reports s.matchIndex i) : Int)) * 2 > s.clusterConfig.size
    · exact Or.inr ⟨⟨term, most⟩, if_pos most⟩
    · exact Or.inl (if_neg most)
  · exact Or.inl (if_neg term)

theorem commitScan_spec (id : Int) {peers : List Int} {s : RaftState}
    (present : ∀ p ∈ peers, p ∈ s.matchIndex) :
    commitScan id peers s = s ∨ ∃ i, s.commitIndex < i ∧ Counted id peers s i ∧
      commitScan id peers s = { s with commitIndex := i } := by
  unfold commitScan
  generalize List.range _ = js
  -- any index found so far is past the old one and was counted in the state `s`
  suffices h : ∀ t : RaftState, (t = s ∨ ∃ i, s.commitIndex < i ∧ Counted id peers s i ∧
      t = { s with commitIndex := i }) → ∃ t', t' = js.foldl
        (fun t (j : Nat) => commitStep id peers t (s.commitIndex + 1 + j)) t ∧
        (t' = s ∨ ∃ i, s.commitIndex < i ∧ Counted id peers s i ∧
          t' = { s with commitIndex := i }) by
    obtain ⟨t', rfl, found⟩ := h s (Or.inl rfl)
    exact found
  intro t found
  induction js generalizing t with
  | nil => exact ⟨t, rfl, found⟩
  | cons j js ih =>
      refine ih _ ?_
      have past : s.commitIndex < s.commitIndex + 1 + (j : Int) := by omega
      rcases found with rfl | ⟨i, lt, counted, rfl⟩
      · rcases commitStep_eq present (t.commitIndex + 1 + j) with e | ⟨counted, e⟩
        · exact Or.inl e
        · exact Or.inr ⟨_, past, counted, e⟩
      · rcases commitStep_eq (s := { s with commitIndex := i }) present
          (s.commitIndex + 1 + j) with e | ⟨again, e⟩
        · exact Or.inr ⟨i, lt, counted, e⟩
        · exact Or.inr ⟨_, past, ⟨again.term, again.most⟩, e⟩

/-- The replicas the scan has counted: the leader, if it is a member, and the
peers that have reported the index. -/
def counted (id : Int) (peers : List Int) (s : RaftState) (i : Int) : List Int :=
  (if id ∈ s.clusterConfig then [id] else []) ++ peers.filter (reports s.matchIndex i)

theorem Counted.most_counted {id : Int} {peers : List Int} {s : RaftState} {i : Int}
    (h : Counted id peers s i) : s.clusterConfig.size < 2 * (counted id peers s i).length := by
  have most := h.most
  simp only [counted, List.length_append, ← List.countP_eq_length_filter]
  split_ifs at most ⊢ <;> simp <;> omega

theorem counted_nodup {id : Int} {peers : List Int} {s : RaftState} {i : Int}
    (nodup : peers.Nodup) (apart : id ∉ peers) : (counted id peers s i).Nodup := by
  unfold counted
  split_ifs
  · exact List.nodup_cons.mpr ⟨fun h => apart (List.mem_filter.mp h).1, nodup.filter _⟩
  · exact nodup.filter _

theorem Counted.inside {id : Int} {peers : List Int} {s : RaftState} {i : Int}
    (h : Counted id peers s i) : ∃ e, 0 ≤ i ∧ s.logs.items[i.toNat]? = some e ∧
      e.term = s.currentTerm := by
  obtain ⟨e, he, term⟩ := Option.map_eq_some_iff.mp h.term
  unfold LogVector.at? at he
  split at he
  · next pos => exact ⟨e, pos, he, term⟩
  · cases he

/-- An operation that is queued is the log's, at an index up to `CommitIndex`. -/
theorem mem_newlyCommitted {s : RaftState} {i : Int} {op : RaftOp}
    (h : (i, op) ∈ newlyCommitted s) :
    0 ≤ i ∧ i ≤ s.commitIndex ∧ ∃ e, s.logs.items[i.toNat]? = some e ∧ e.op = op := by
  simp only [newlyCommitted, List.mem_filterMap, List.mem_range, Option.map_eq_some_iff,
    Prod.mk.injEq] at h
  obtain ⟨j, hj, e, he, rfl, rfl⟩ := h
  unfold LogVector.at? at he
  split at he
  · next pos => exact ⟨pos, by omega, e, he, rfl⟩
  · cases he

theorem mem_queueCommitted {r : Replica} {e : Event} (h : e ∈ r.queueCommitted.hist) :
    e ∈ r.hist ∨ ∃ i op, e = .pushedOut i op ∧ (i, op) ∈ newlyCommitted r.state := by
  rcases List.mem_append.mp h with h | h
  · obtain ⟨⟨i, op⟩, hp, rfl⟩ := List.mem_map.mp (List.mem_reverse.mp h)
    exact Or.inr ⟨i, op, rfl, hp⟩
  · exact Or.inl h

theorem followCommit_commitIndex (r : Replica) (leaderCommit : Int) :
    (r.followCommit leaderCommit).state.commitIndex =
      if leaderCommit > r.state.commitIndex then min leaderCommit (r.state.logs.size - 1)
      else r.state.commitIndex := by
  unfold followCommit
  split <;> rfl

/-- The events the commit rule of a follower adds are about its log. -/
theorem mem_followCommit {r : Replica} {leaderCommit : Int} {e : Event}
    (h : e ∈ (r.followCommit leaderCommit).hist) :
    e ∈ r.hist ∨ ∃ i op, e = .pushedOut i op ∧ 0 ≤ i ∧
      i ≤ (r.followCommit leaderCommit).state.commitIndex ∧
      ∃ x, r.state.logs.items[i.toNat]? = some x ∧ x.op = op := by
  unfold followCommit at h ⊢
  split at h
  · next later =>
    rcases mem_queueCommitted h with h | ⟨i, op, rfl, new⟩
    · exact Or.inl h
    · rw [if_pos later]
      obtain ⟨pos, le, entry⟩ := mem_newlyCommitted new
      exact Or.inr ⟨i, op, rfl, pos, le, entry⟩
  · exact Or.inl h

end Replica
end OhMyDb
