import OhMyDb.Raft.Delivery

/-!
The reply handler of a leader. A reply for the present term is an acknowledgement
of the whole log the request stood for, so that the maps are what followers have
acknowledged, and an index the scan commits has a quorum behind it.
-/

namespace OhMyDb
open Execution
open LeaderLog (Step Steps Evolves Elsewhere Held Agreed Message)

section Leader
variable {ℓ : Level} {config : IntMap ServerInfo} {b : AbstractState} {r : Int}
  {x : Replica} {s : RaftState} {c : Cluster} {args : AppendEntriesParams} {now : Int}
  {m : Message Int Command}

/-- How much a request carries. -/
theorem Encodes.length {log : AbstractLog} {nextIndex : Int} (enc : Encodes log nextIndex args)
    (le : nextIndex ≤ log.length) :
    (nextIndex < 0 ∧ args.entries.length = 0) ∨
    (0 ≤ nextIndex ∧ nextIndex + args.entries.length = log.length) := by
  have length := abstractEntries_length args.entries
  rw [enc.entries] at length
  split at length
  · next neg => exact Or.inl ⟨neg, length.symm⟩
  · next pos =>
    rw [List.length_drop] at length
    exact Or.inr ⟨by omega, by omega⟩

/-- What a leader may record about a peer when it takes a reply. -/
theorem Stands.setMaps (st : Stands ℓ b r x) {p next matched : Int}
    (nextIndex : ℓ ≠ .matching → x.state.role = .leader → next ≤ x.state.logs.size)
    (matchIndex : ℓ ≠ .matching → x.state.role = .leader → 0 ≤ matched →
      ∃ j : ℕ, matched + 1 ≤ j ∧ ⟨p, x.state.currentTerm, j⟩ ∈ b.acks) :
    Stands ℓ b r { x with state := { x.state with
      nextIndex := x.state.nextIndex.insert p next
      matchIndex := x.state.matchIndex.insert p matched } } := by
  refine { st with mirrors := { st.mirrors with }, leads := ⟨?_, ?_⟩ }
  · intro hl role q v hv
    by_cases e : q = p
    · subst e
      rw [AList.lookup_insert] at hv
      exact Option.some.inj hv ▸ nextIndex hl role
    · rw [AList.lookup_insert_ne e] at hv
      exact st.leads.nextIndex hl role q v hv
  · intro hl role q hq
    by_cases e : q = p
    · subst e
      exact ⟨matched, AList.lookup_insert _, matchIndex hl role⟩
    · simp only [AList.lookup_insert_ne e]
      exact st.leads.matchIndex hl role q hq

/-- A refusal moves `NextIndex` back. -/
theorem Stands.setNextIndex (st : Stands ℓ b r x) {p next : Int}
    (nextIndex : ℓ ≠ .matching → x.state.role = .leader → next ≤ x.state.logs.size) :
    Stands ℓ b r { x with state := { x.state with
      nextIndex := x.state.nextIndex.insert p next } } := by
  refine { st with mirrors := { st.mirrors with }, leads := ⟨?_, st.leads.matchIndex⟩ }
  intro hl role q v hv
  by_cases e : q = p
  · subst e
    rw [AList.lookup_insert] at hv
    exact Option.some.inj hv ▸ nextIndex hl role
  · rw [AList.lookup_insert_ne e] at hv
    exact st.leads.nextIndex hl role q v hv

/-- Those the scan has counted have acknowledged the index. -/
theorem Stands.acked (st : Stands ℓ b r x) (hl : ℓ ≠ .matching) (leader : x.state.role = .leader)
    {i v : Int} (pos : 0 ≤ i) (hv : v ∈ Replica.counted r x.peers.keys x.state i) :
    (v = r ∧ r ∈ x.state.clusterConfig) ∨ (v ∈ x.peers ∧
      ∃ j : ℕ, (i + 1).toNat ≤ j ∧ ⟨v, x.state.currentTerm, j⟩ ∈ b.acks) := by
  rcases List.mem_append.mp hv with hv | hv
  · split at hv
    · next member => exact Or.inl ⟨List.mem_singleton.mp hv, member⟩
    · cases hv
  · obtain ⟨hp, reports⟩ := List.mem_filter.mp hv
    have peer := AList.mem_keys.mpr hp
    obtain ⟨w, hw, acked⟩ := st.leads.matchIndex hl leader v peer
    rw [Replica.reports, show x.state.matchIndex.lookup v = some w from hw,
      decide_eq_true_eq] at reports
    obtain ⟨j, hj, ha⟩ := acked (pos.trans reports)
    exact Or.inr ⟨peer, j, by omega, ha⟩

/-- The commit of a leader. -/
theorem Stands.commit (st : Stands ℓ b r x) (reached : ℓ.Reached config b)
    (static : x.Static config) (apart : r ∉ x.peers) (id : x.id = r) (server : r ∈ config.keys)
    (hl : ℓ ≠ .matching) (leader : x.state.role = .leader) {i : Int}
    (past : x.state.commitIndex < i)
    (found : Replica.Counted r x.peers.keys x.state i)
    (committed : s = { x.state with commitIndex := i }) :
    Answers ℓ config b r
      { x with state := s, hist := .committed s :: x.hist : Replica }.queueCommitted := by
  have mi := st.mirrors
  have abstractLeader : b.role r = .leader := by rw [mi.role, leader]; rfl
  have sound := reached.sound hl
  have leads := sound.voting.leader_role r abstractLeader
  have ledLog := sound.matching.leader_log r abstractLeader
  obtain ⟨e, pos, entry, entryTerm⟩ := found.inside
  have inside : i.toNat < x.state.logs.items.length := (List.getElem?_eq_some_iff.mp entry).1
  obtain ⟨k, rfl⟩ := Int.eq_ofNat_of_zero_le pos
  rw [Int.toNat_natCast] at entry inside
  have counted : (Replica.counted r x.peers.keys x.state k).Nodup :=
    Replica.counted_nodup x.peers.keys_nodup fun h => apart (AList.mem_keys.mpr h)
  have most := found.most_counted
  have acked := fun v => st.acked (v := v) hl leader pos
  rw [show ((k : Int) + 1).toNat = k + 1 by omega] at acked
  -- the counted replicas are a quorum of the servers
  have quorum : (quorums config).IsQuorum
      (Replica.counted r x.peers.keys x.state k).toFinset := by
    constructor
    · intro v hv
      rcases acked v (List.mem_toFinset.mp hv) with ⟨rfl, _⟩ | ⟨peer, _⟩
      · exact List.mem_toFinset.mpr server
      · exact List.mem_toFinset.mpr (AList.mem_keys.mp ((static.peers v).mp peer).1)
    · have sub : config.keys.toFinset ⊆ x.state.clusterConfig.keys.toFinset := fun p hp =>
        List.mem_toFinset.mpr (AList.mem_keys.mp (static.members p (AList.mem_keys.mpr
          (List.mem_toFinset.mp hp))))
      have le := Finset.card_le_card sub
      rw [List.toFinset_card_of_nodup x.state.clusterConfig.keys_nodup] at le
      rw [List.toFinset_card_of_nodup counted]
      exact lt_of_le_of_lt le most
  have replicated : LeaderLog.Replicated b r (k + 1)
      (Replica.counted r x.peers.keys x.state k).toFinset := by
    intro v hv
    rcases acked v (List.mem_toFinset.mp hv) with ⟨same, _⟩ | ⟨_, j, hj, ha⟩
    · exact Or.inl same
    · exact Or.inr ⟨j, hj, mi.term ▸ ha⟩
  -- an entry of this term is none the leader was elected with
  have above : (b.base (b.term r)).length < k + 1 := by
    by_contra le
    have inBase : (b.base (b.term r))[k]? = some ⟨e.term, e.op.command⟩ := by
      obtain ⟨rest, h⟩ := sound.matching.base_led leads
      have at_ := abstractLog_getElem? x.state.logs.items k
      rw [← mi.log, ledLog, ← h, List.getElem?_append_left (by omega), entry] at at_
      exact at_
    have earlier := sound.ordered.base_terms _ r leads _ (List.mem_of_getElem? inBase)
    rw [mi.term, ← entryTerm] at earlier
    exact lt_irrefl _ earlier
  have step : Step (quorums config) ℓ.discipline b (b.commitTo r (k + 1)) := by
    refine .commitTo b r (k + 1) _ abstractLeader above ?_ quorum replicated
    rw [mi.log, abstractLog_length]
    exact inside
  have ev := step.evolves reached.voting reached.matching
  have m' : Mirrors ℓ (b.commitTo r (k + 1)) r { x.state with commitIndex := k } := by
    refine { mi with commit := fun hl => ?_ }
    have := mi.commit hl
    simp only [LeaderLog.State.commitTo, Function.update_self]
    omega
  refine .step reached step (LeaderLog.elsewhere_commitTo b r _) ?_
  rw [committed]
  refine ⟨{ m' with }, ?_, st.requested.evolve ev, st.sends.evolve ev,
    (st.leads.evolve ev).congr rfl rfl le_rfl rfl rfl, ?_⟩
  · intro q t
    have quiet := Replica.quiet_queueCommitted { x with
      state := { x.state with commitIndex := k }
      hist := .committed { x.state with commitIndex := k } :: x.hist }
    rw [quiet.voted, List.mem_cons, or_iff_right (by simp)]
    exact st.voted q t
  · have rc := st.recalls.evolve ev
    have commits : Commits (b.commitTo r (k + 1)) { x.state with commitIndex := k } := by
      constructor
      case pos => exact pos
      case inside => exact Int.ofNat_lt.mpr inside
      case leader => exact ⟨r, mi.term ▸ leads⟩
      case committed => exact Or.inl (by rw [mi.term]; rfl)
      case led =>
        change (abstractLog x.state.logs.items).take _ <+: b.led x.state.currentTerm
        rw [← mi.term, ← ledLog, mi.log]
        exact List.take_prefix _ _
      case acked =>
        refine ⟨(Replica.counted r x.peers.keys x.state k).toFinset, ?_, ?_, ?_⟩
        · intro v hv
          rcases acked v (List.mem_toFinset.mp hv) with ⟨rfl, member⟩ | ⟨peer, _⟩
          · exact List.mem_toFinset.mpr (AList.mem_keys.mp member)
          · exact List.mem_toFinset.mpr
              (AList.mem_keys.mp (static.members v ((static.peers v).mp peer).1))
        · rw [List.toFinset_card_of_nodup counted]
          exact most
        · intro v hv
          rcases acked v (List.mem_toFinset.mp hv) with ⟨rfl, _⟩ | ⟨_, j, hj, ha⟩
          · exact ⟨k + 1, le_rfl, Or.inl (by rw [mi.term])⟩
          · exact ⟨j, hj, Or.inr ha⟩
    have recorded : Recalls ℓ (b.commitTo r (k + 1)) r
        (.committed { x.state with commitIndex := k } :: x.hist) := by
      refine ⟨fun s h => rc.elected s ((List.mem_cons.mp h).resolve_left (by simp)), ?_,
        fun hl i op h => rc.pushedOut hl i op ((List.mem_cons.mp h).resolve_left (by simp))⟩
      intro hl s h
      rcases List.mem_cons.mp h with h | h
      · exact Event.committed.inj h ▸ commits
      · exact rc.committed hl s h
    refine recorded.extend fun event h => ?_
    rcases Replica.mem_queueCommitted h with h | ⟨i, op, rfl, new⟩
    · exact Or.inl h
    · obtain ⟨pos, le, entry⟩ := Replica.mem_newlyCommitted new
      exact Or.inr (Or.inr (Or.inr ⟨i, op, rfl, fun hl =>
        m'.pushed hl (Level.Reached.agreed (reached.tail step) hl) pos le entry⟩))

/-- At the lowest level a commit leaves everything related as it is. -/
theorem Stands.commitUnrelated (st : Stands .matching b r x)
    (committed : ∃ found i, s = { x.state with matchIndex := found, commitIndex := i }) :
    Stands .matching b r
      { x with state := s, hist := .committed s :: x.hist : Replica }.queueCommitted := by
  obtain ⟨found, i, rfl⟩ := committed
  have quiet := Replica.quiet_queueCommitted { x with
    state := { x.state with matchIndex := found, commitIndex := i }
    hist := .committed { x.state with matchIndex := found, commitIndex := i } :: x.hist }
  refine ⟨⟨st.mirrors.term, st.mirrors.role, st.mirrors.alive, st.mirrors.log,
      fun h => by cases h⟩, ?_, st.requested, st.sends,
    ⟨fun h => absurd rfl h, fun h => absurd rfl h⟩,
    ⟨?_, fun h => absurd rfl h, fun h => by cases h⟩⟩
  · intro q t
    rw [quiet.voted, List.mem_cons, or_iff_right (by simp)]
    exact st.voted q t
  · intro s h
    rw [quiet.becameLeader, List.mem_cons, or_iff_right (by simp)] at h
    exact st.recalls.elected s h

/-- What a leader knows when it takes a reply for its present term. -/
theorem Carries.reply {t : AppendThread} (carries : Carries ℓ b t args m)
    (st : Stands ℓ b m.sender x) (reached : ℓ.Reached config b) (hl : ℓ ≠ .matching)
    (leader : x.state.role = .leader) (term : x.state.currentTerm = t.savedCurrentTerm) :
    t.nextIndex ≤ m.log.length ∧ m.log.length ≤ x.state.logs.items.length ∧
    ∀ reply ∈ t.replies, reply.success = true →
      ⟨t.peer, x.state.currentTerm, m.log.length⟩ ∈ b.acks := by
  have mi := st.mirrors
  have role : b.role m.sender = .leader := by rw [mi.role, leader]; rfl
  have same : b.term m.sender = m.term := mi.term.trans (term.trans carries.term.symm)
  have le := carries.sent hl role same
  refine ⟨le, ?_, fun reply hr ok => ?_⟩
  · have sound := reached.sound hl
    rcases sound.retained.message_at m carries.mem with led | ⟨later, _⟩
    · rw [← same, ← sound.matching.leader_log _ role, mi.log] at led
      simpa using led.length_le
    · exact absurd same later.ne'
  · rcases carries.acked hl le reply hr ok with ha | later
    · rw [term, ← carries.term]
      exact ha
    · exact absurd same later.ne'

/-- The reply part of a sender thread. -/
theorem Stands.appendReply (st : Stands ℓ b r x) (reached : ℓ.Reached config b)
    (static : x.Static config) (apart : r ∉ x.peers) (id : x.id = r) (server : r ∈ config.keys)
    {t : AppendThread} (carries : Carries ℓ b t args m) (sender : m.sender = r)
    {reply : AppendEntriesRet} (mem : reply ∈ t.replies)
    (noStepBack : t.savedCurrentTerm < reply.term → x.state.currentTerm ≤ reply.term)
    (thisTerm : ℓ ≠ .matching → x.state.role = .leader → t.savedCurrentTerm = reply.term →
      x.state.currentTerm = t.savedCurrentTerm) :
    Answers ℓ config b r (x.appendReply t.peer t.savedCurrentTerm t.nextIndex
      args.entries.length reply now) := by
  subst sender
  have known := fun hl leader term =>
    carries.reply st reached hl leader (thisTerm hl leader term)
  unfold Replica.appendReply
  split
  · next later =>
    obtain ⟨step, st'⟩ := st.observe (s := x.state.becomeFollower reply.term now) reached
      (noStepBack later) rfl rfl rfl
    exact .step reached step (LeaderLog.elsewhere_observe b _ _) st'
  split
  · next present =>
    obtain ⟨leader, term⟩ := present
    split
    · next ok =>
      have st₁ : Stands ℓ b m.sender { x with state := { x.state with
          nextIndex := x.state.nextIndex.insert t.peer (t.nextIndex + args.entries.length)
          matchIndex := x.state.matchIndex.insert t.peer
            (t.nextIndex + args.entries.length - 1) } } := by
        refine st.setMaps (fun hl _ => ?_) fun hl _ pos => ?_
        · obtain ⟨le, inside, _⟩ := known hl leader term
          simp only [LogVector.size]
          rcases carries.encodes.length le with ⟨_, _⟩ | ⟨_, _⟩ <;> omega
        · obtain ⟨le, _, acked⟩ := known hl leader term
          refine ⟨m.log.length, ?_, acked reply mem ok⟩
          rcases carries.encodes.length le with ⟨_, _⟩ | ⟨_, _⟩ <;> omega
      by_cases hl : ℓ = .matching
      · subst hl
        obtain ⟨_, _, scan, _⟩ := Replica.commitScan_eq x.id x.peers.keys { x.state with
          nextIndex := x.state.nextIndex.insert t.peer (t.nextIndex + args.entries.length)
          matchIndex := x.state.matchIndex.insert t.peer
            (t.nextIndex + args.entries.length - 1) }
        simp only [scan]
        split
        · exact .same (st₁.commitUnrelated ⟨_, _, rfl⟩)
        · refine .same { st₁ with
            mirrors := ⟨st.mirrors.term, st.mirrors.role, st.mirrors.alive, st.mirrors.log,
              fun h => by cases h⟩
            leads := ⟨fun h => absurd rfl h, fun h => absurd rfl h⟩ }
      · have present : ∀ p ∈ x.peers.keys, p ∈ x.state.matchIndex.insert t.peer
            (t.nextIndex + args.entries.length - 1) := by
          intro p hp
          obtain ⟨v, hv, _⟩ := st₁.leads.matchIndex hl leader p (AList.mem_keys.mpr hp)
          exact AList.lookup_isSome.mp (Option.isSome_iff_exists.mpr ⟨v, hv⟩)
        rcases Replica.commitScan_spec x.id (s := { x.state with
            nextIndex := x.state.nextIndex.insert t.peer (t.nextIndex + args.entries.length)
            matchIndex := x.state.matchIndex.insert t.peer
              (t.nextIndex + args.entries.length - 1) }) present with
          scan | ⟨i, past, counted, scan⟩
        · simp only [scan]
          rw [if_neg (not_not.mpr rfl)]
          exact .same st₁
        · simp only [scan]
          rw [if_pos past.ne']
          rw [id] at counted
          exact st₁.commit reached { static with } apart id server hl leader past counted rfl
    · refine .same (st.setNextIndex fun hl _ => ?_)
      obtain ⟨le, inside, _⟩ := known hl leader term
      simp only [LogVector.size]
      omega
  · exact .same st

theorem Answers.finish (h : Answers ℓ config b r x) (k : Nat) :
    Answers ℓ config b r (x.updateAppendThread k fun t => { t with finished := true }) := by
  obtain ⟨b', steps, el, held, st⟩ := h
  exact ⟨b', steps, el, held, { st with sends := st.sends.finish }⟩

end Leader
end OhMyDb
