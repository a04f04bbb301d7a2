import OhMyDb.Raft.Fixed
import OhMyDb.Raft.Stepwise

/-!
The sender threads of a replica, and the maps they read and write. Both go on living
while the role of the replica and its log change under them.
-/

namespace OhMyDb

namespace Replica
variable {R : Rules} {r r' r'' : Replica}

/-- Everything a sender thread looks at is as before, but that the log may have grown. -/
structure Grows (r r' : Replica) : Prop where
  term : r'.state.currentTerm = r.state.currentTerm
  role : r'.state.role = r.state.role
  nextIndex : r'.state.nextIndex = r.state.nextIndex
  matchIndex : r'.state.matchIndex = r.state.matchIndex
  peers : r'.peers = r.peers
  logs : r.state.logs.items <+: r'.state.logs.items

theorem Grows.refl (r : Replica) : Grows r r := ⟨rfl, rfl, rfl, rfl, rfl, List.prefix_rfl⟩

theorem Grows.trans (h : Grows r r') (h' : Grows r' r'') : Grows r r'' where
  term := h'.term.trans h.term
  role := h'.role.trans h.role
  nextIndex := h'.nextIndex.trans h.nextIndex
  matchIndex := h'.matchIndex.trans h.matchIndex
  peers := h'.peers.trans h.peers
  logs := h.logs.trans h'.logs

/-- Appending and committing, without what changes the peers. -/
def Rules.growing : Rules where
  stand := False
  update _ _ := False
  cut _ _ := False

theorem Change.grows (ch : Change .growing r r') : Grows r r' := by
  cases ch with
  | stand x ok _ => exact ok.elim
  | cut n ok => exact ok.elim
  | update saved u rest _ ok => exact ok.elim
  | updateHandler j h u _ _ ok => exact ok.elim
  | push saved op rest _ _ | follow hs h e rest _ _ _ _ _ =>
      exact ⟨rfl, rfl, rfl, rfl, rfl, List.prefix_append _ _⟩
  | finish saved _ | leave hs h _ _ _ =>
      exact ⟨rfl, rfl, rfl, rfl, rfl, by simp [persistLogs]⟩
  | _ => exact ⟨rfl, rfl, rfl, rfl, rfl, List.prefix_rfl⟩

theorem Changes.grows (ch : Changes .growing r r') : Grows r r' :=
  ch.preserves (I := Grows r) (fun _ _ h ch => h.trans ch.grows) (.refl r)

/-- The same, where the log may be cut. -/
def Rules.merging : Rules where
  stand := False
  update _ _ := False

theorem Changes.maps (ch : Changes .merging r r') :
    r'.state.nextIndex = r.state.nextIndex ∧ r'.state.matchIndex = r.state.matchIndex := by
  refine ch.preserves (I := fun x => x.state.nextIndex = r.state.nextIndex ∧
    x.state.matchIndex = r.state.matchIndex) (fun x y same ch => ?_) ⟨rfl, rfl⟩
  cases ch with
  | stand x ok _ => exact ok.elim
  | update saved u rest _ ok => exact ok.elim
  | updateHandler j h u _ _ ok => exact ok.elim
  | _ => exact same

theorem appendEntries_maps (r : Replica) (args : AppendEntriesParams) (now : Int)
    (bare : ∀ e ∈ args.entries, e.op.promiseHandle = none) :
    (r.appendEntries args now).1.state.nextIndex = r.state.nextIndex ∧
      (r.appendEntries args now).1.state.matchIndex = r.state.matchIndex := by
  by_cases dead : r.state.role = .dead
  · rw [appendEntries, if_pos dead]
    exact ⟨rfl, rfl⟩
  · have met : (r.observeLeader args now).nextIndex = r.state.nextIndex ∧
        (r.observeLeader args now).matchIndex = r.state.matchIndex := by
      obtain ⟨_, _, _, _, e⟩ := r.meetLeader_eq args now
      rw [meetLeader, if_neg dead] at e
      rw [e]
      exact ⟨rfl, rfl⟩
    rw [appendEntries, if_neg dead]
    dsimp only
    split
    · have merged := Changes.maps (@mergeEntries_changes .merging 0 0
        { r with state := r.observeLeader args now } args bare
        fun _ => ⟨True.intro, fun _ _ => True.intro⟩)
      revert merged
      cases ({ r with state := r.observeLeader args now }.mergeEntries args).2 <;>
        exact fun same => ⟨same.1.trans met.1, same.2.trans met.2⟩
    · exact met

/-- A replica that `AppendEntries` does not make a follower leaves its log alone. -/
theorem appendEntries_logs (r : Replica) (args : AppendEntriesParams) (now : Int)
    (role : (r.appendEntries args now).1.state.role ≠ .follower) :
    (r.appendEntries args now).1.state.logs = r.state.logs ∧
      (r.appendEntries args now).1.state.role = r.state.role ∧
      (r.appendEntries args now).1.state.currentTerm = r.state.currentTerm := by
  by_cases dead : r.state.role = .dead
  · rw [appendEntries, if_pos dead]
    exact ⟨rfl, rfl, rfl⟩
  · have quiet := r.quiet_appendEntries args now
    rw [quiet.role] at role
    rcases meetLeader_cases dead args now with ⟨earlier, same, term⟩ | ⟨_, follower, _⟩
    · have refuses : ¬ (args.term = (r.observeLeader args now).currentTerm ∧
          prevMatches (r.observeLeader args now).logs args) := by
        rw [meetLeader, if_neg dead] at term
        rw [term]
        exact fun accepts => absurd accepts.1 (Int.ne_of_lt earlier)
      refine ⟨?_, quiet.role.trans same, quiet.term.trans term⟩
      rw [appendEntries, if_neg dead]
      dsimp only
      rw [if_neg refuses, observeLeader_logs]
    · exact absurd follower role

theorem leaderAppend_senders (r : Replica) (saved : Int) (ops : List RaftOp) :
    (r.leaderAppend saved ops).appendThreads = r.appendThreads := by
  have quiet := quiet_leaderAppendLoop ops r
  unfold leaderAppend
  split <;> next he =>
    rw [he] at quiet
    exact quiet.appendThreads

theorem appendRest_success {args : AppendEntriesParams} {es : List AppendLogEntry}
    {ret : AppendEntriesRet} (h : (r.appendRest args es).2 = .replied ret) :
    ret.success = true := by
  unfold appendRest at h
  split at h <;> cases h
  rfl

/-- What becomes of the role of a replica, and of its log and `NextIndex` with it. `won` is what
is known where it becomes leader. -/
inductive Office (won : Prop) (r r' : Replica) : Prop where
  | stays : r'.state.role = r.state.role → r'.state.currentTerm = r.state.currentTerm →
      r.state.logs.items <+: r'.state.logs.items →
      (∀ p v, r'.state.nextIndex.lookup p = some v → r.state.nextIndex.lookup p = some v ∨ v = 0) →
      Office won r r'
  | follows : r'.state.role = .follower → r'.state.nextIndex = r.state.nextIndex → Office won r r'
  | stands : r'.state.role = .candidate → r'.state.nextIndex = r.state.nextIndex → Office won r r'
  | rises : won → r'.state.role = .leader → r'.state.currentTerm = r.state.currentTerm →
      r'.state.logs = r.state.logs →
      (∀ p v, r'.state.nextIndex.lookup p = some v → v = r.state.logs.size) → Office won r r'

variable {won : Prop}

theorem Office.congr {x : Replica} (h : Office won r r') (state : x.state = r'.state) :
    Office won r x := by
  cases h with
  | stays role term logs next =>
      exact .stays (state ▸ role) (state ▸ term) (state ▸ logs) (state ▸ next)
  | follows role next => exact .follows (state ▸ role) (state ▸ next)
  | stands role next => exact .stands (state ▸ role) (state ▸ next)
  | rises won role term logs next =>
      exact .rises won (state ▸ role) (state ▸ term) (state ▸ logs) (state ▸ next)

theorem Grows.office (h : Grows r r') : Office won r r' :=
  .stays h.role h.term h.logs fun _ _ hv => Or.inl (h.nextIndex ▸ hv)

theorem Office.same {x : Replica} (state : x.state = r.state) : Office won r x :=
  (Grows.refl r).office.congr state

theorem lookup_foldl_insert {v w : Int} {p : Int} (ps : List Int) (m : IntMap Int)
    (h : (ps.foldl (fun m p => m.insert p v) m).lookup p = some w) :
    w = v ∨ m.lookup p = some w := by
  induction ps generalizing m with
  | nil => exact Or.inr h
  | cons q ps ih =>
      rcases ih (m.insert q v) h with same | old
      · exact Or.inl same
      · by_cases e : p = q
        · subst e
          rw [AList.lookup_insert] at old
          exact Or.inl (Option.some.inj old).symm
        · rw [AList.lookup_insert_ne e] at old
          exact Or.inr old

theorem electionTick_office (r : Replica) (now timeout : Int) :
    Office won r (r.electionTick now timeout) := by
  unfold electionTick
  split
  · exact .stands rfl rfl
  · exact .same rfl

theorem requestVote_office (r : Replica) (args : RequestVoteParams) (now : Int) :
    Office won r (r.requestVote args now).1 := by
  simp only [requestVote, observeTerm]
  split
  · exact .same rfl
  · by_cases later : args.term > r.state.currentTerm
    · simp only [if_pos later]
      split <;> exact .follows rfl rfl
    · simp only [if_neg later]
      split <;> exact .stays rfl rfl List.prefix_rfl fun _ _ => Or.inl

theorem voteReply_office (r : Replica) (saved : Int) (reply : RequestVoteRet) (now : Int) :
    Office (r.state.role = .candidate ∧ (r.voteReply saved reply now).state.role = .leader) r
      (r.voteReply saved reply now) := by
  rcases r.voteReply_cases saved reply now with
    ⟨e, _⟩ | ⟨_, _, e⟩ | ⟨role, _, ⟨_, e⟩ | ⟨_, s, hs, e⟩⟩
  · exact .same (by rw [e])
  · rw [e]
    exact .follows rfl rfl
  · rw [e]
    exact .stays rfl rfl List.prefix_rfl fun _ _ => Or.inl
  · rw [e, hs]
    refine .rises ⟨role, rfl⟩ rfl rfl rfl fun p v hv => ?_
    exact (lookup_foldl_insert r.peers.keys ∅ hv).resolve_right (by simp)

theorem appendEntries_office (r : Replica) (args : AppendEntriesParams) (now : Int)
    (bare : ∀ e ∈ args.entries, e.op.promiseHandle = none) :
    Office won r (r.appendEntries args now).1 := by
  have maps := (r.appendEntries_maps args now bare).1
  by_cases follower : (r.appendEntries args now).1.state.role = .follower
  · exact .follows follower maps
  · obtain ⟨logs, role, term⟩ := r.appendEntries_logs args now follower
    exact .stays role term (logs ▸ List.prefix_rfl) fun p v hv => Or.inl (maps ▸ hv)

theorem updatePeers_office (r : Replica) (u : PeerUpdate) : Office won r (r.updatePeers u) := by
  cases u with
  | addPeer p =>
      refine .stays rfl rfl List.prefix_rfl fun q v hv => ?_
      simp only [updatePeers, addPeer, RaftState.persist] at hv
      by_cases e : q = p
      · subst e
        rw [AList.lookup_insert] at hv
        exact Or.inr (Option.some.inj hv).symm
      · rw [AList.lookup_insert_ne e] at hv
        exact Or.inl hv
  | removePeer p =>
      refine .stays rfl rfl List.prefix_rfl fun q v hv => Or.inl ?_
      simp only [updatePeers, removePeer] at hv
      by_cases e : q = p
      · subst e
        rw [AList.lookup_erase] at hv
        cases hv
      · rwa [AList.lookup_erase_ne e] at hv

theorem lookup_subscript {m : IntMap Int} {p q v : Int}
    (h : (m.subscript p 0).2.lookup q = some v) : m.lookup q = some v ∨ v = 0 := by
  unfold IntMap.subscript at h
  split at h
  · exact Or.inl h
  · by_cases e : q = p
    · subst e
      rw [AList.lookup_insert] at h
      exact Or.inr (Option.some.inj h).symm
    · rw [AList.lookup_insert_ne e] at h
      exact Or.inl h

theorem advance_office {now : Int} {j : ℕ} {call : Call} {p : Replica × Call}
    (hc : r.calls[j]? = some call) (h : r.advance now call = some p) : Office won r p.1 := by
  rcases advance_cases h with ⟨_, e⟩ | ⟨up, _⟩
  · rw [e]
    exact .follows rfl rfl
  · have changes := @advance_changes .growing r now j call p hc True.intro
      (fun _ => True.intro) up h
    exact (Changes.grows changes).office.congr rfl

/-- What a reply changes of what sender threads look at: nothing, the role, or the `NextIndex`
of the server it is from. -/
theorem appendReply_answers (r : Replica) (id saved nextIndex : Int) (n : ℕ)
    (reply : AppendEntriesRet) (now : Int) :
    (saved < reply.term ∧
      (r.appendReply id saved nextIndex n reply now).state =
        r.state.becomeFollower reply.term now) ∨
    (reply.term ≤ saved ∧ ¬ (r.state.role = .leader ∧ saved = reply.term) ∧
      (r.appendReply id saved nextIndex n reply now).state = r.state) ∨
    (r.state.role = .leader ∧ saved = reply.term ∧ ∃ m i j,
      (r.appendReply id saved nextIndex n reply now).state = { r.state with
        nextIndex := r.state.nextIndex.insert id
          (if reply.success = true then nextIndex + n else nextIndex - 1)
        matchIndex := m, commitIndex := i, lastApplied := j }) := by
  refine appendReply_elim r id saved nextIndex n reply now ?down ?idle ?refused ?matched ?committed
  case down => exact fun later => Or.inl ⟨later, rfl⟩
  case idle => exact fun earlier idle => Or.inr (Or.inl ⟨earlier, idle, rfl⟩)
  case refused =>
    intro leads term failed
    rw [failed]
    exact Or.inr (Or.inr ⟨leads, term, _, _, _, rfl⟩)
  case matched =>
    intro leads term ok m _
    rw [ok]
    exact Or.inr (Or.inr ⟨leads, term, _, _, _, rfl⟩)
  case committed =>
    rintro leads term ok m i _ _ _ s rfl
    rw [ok]
    exact Or.inr (Or.inr ⟨leads, term, _, _, _, rfl⟩)

end Replica

namespace Cluster
variable {c c' : Cluster} {a : Action} {q : Int}

/-- Some replica would answer the request so. -/
def Serves (c : Cluster) (args : AppendEntriesParams) (reply : AppendEntriesRet) : Prop :=
  ∃ p now, ((c.node p).appendEntries args now).2 = .replied reply

/-- Where a sender thread of replica `q` comes from. -/
inductive Sender (c : Cluster) (a : Action) (q : Int) : AppendThread → Prop where
  | goesOn (t : AppendThread) (replies : List AppendEntriesRet) (finished : Bool) :
      t ∈ (c.node q).appendThreads → (finished = false → t.finished = false) →
      (∀ reply ∈ replies, reply ∈ t.replies ∨ reply.success = true ∨
        ∃ args ∈ t.args, c.Serves args reply) →
      Sender c a q { t with replies := replies, finished := finished }
  | sends (k : ℕ) (junk : Int) (t : AppendThread) : a = .appendSend q k junk →
      (c.node q).appendThreads[k]? = some t → t.args = none → t.finished = false →
      t.peer ∈ (c.node q).peers →
      Sender c a q { t with
        nextIndex := ((c.node q).state.nextIndex.subscript t.peer 0).1
        args := some ((c.node q).appendParams t.savedCurrentTerm
          ((c.node q).state.nextIndex.subscript t.peer 0).1 junk) }
  | starts (saved p : Int) : a = .raftImpl q → (c.node q).raftThread = .spawning saved →
      p ∈ (c.node q).peers → Sender c a q { peer := p, savedCurrentTerm := saved }

theorem Sender.same {t : AppendThread} (mem : t ∈ (c.node q).appendThreads) : Sender c a q t :=
  .goesOn t t.replies t.finished mem (fun h => h) fun _ h => Or.inl h

theorem Sender.set {r : Int} {x : Replica} (same : x.appendThreads = (c.node r).appendThreads)
    {t : AppendThread} (mem : t ∈ ((c.set r x).node q).appendThreads) : Sender c a q t :=
  .same (set_same (·.appendThreads) same q ▸ mem)

/-- A sender thread that is served, or returns. -/
theorem Sender.modify {r : Int} {x : Replica} {k : ℕ} {f : AppendThread → AppendThread}
    (same : x.appendThreads = (c.node r).appendThreads)
    (goes : ∀ t, (c.node r).appendThreads[k]? = some t → Sender c a r (f t))
    {t : AppendThread} (mem : t ∈ ((c.set r (x.updateAppendThread k f)).node q).appendThreads) :
    Sender c a q t := by
  by_cases e : q = r
  · subst e
    rw [set_node, Function.update_self, Replica.updateAppendThread, same] at mem
    rcases List.mem_or_eq_of_mem_modify mem with old | ⟨u, hu, rfl⟩
    · exact .same old
    · exact goes u hu
  · rw [set_node, Function.update_of_ne e] at mem
    exact .same mem

theorem Sender.settle {p owner : Int} {k : ℕ} {args : AppendEntriesParams} {x : Replica}
    {outcome : Replica.AppendOutcome} (same : x.appendThreads = (c.node p).appendThreads)
    (served : ∀ ret t, outcome = .replied ret → (c.node owner).appendThreads[k]? = some t →
      ret.success = true ∨ ∃ args ∈ t.args, c.Serves args ret)
    {t : AppendThread} (mem : t ∈
      ((c.settleAppend p owner k args x outcome).node q).appendThreads) :
    Sender c a q t := by
  cases outcome with
  | suspended u e rest =>
      rw [settleAppend] at mem
      refine .set ?_ mem
      exact same
  | replied ret =>
      by_cases e : q = owner
      · subst e
        have kept : ((c.set p x).node q).appendThreads = (c.node q).appendThreads :=
          set_same (·.appendThreads) same q
        rw [settleAppend, pushAppendReply, set_node, Function.update_self,
          Replica.updateAppendThread, kept] at mem
        rcases List.mem_or_eq_of_mem_modify mem with old | ⟨u, hu, rfl⟩
        · exact .same old
        · refine .goesOn u _ u.finished (List.mem_of_getElem? hu) (fun h => h) fun reply h => ?_
          rcases List.mem_cons.mp h with rfl | old
          · exact Or.inr (served _ u rfl hu)
          · exact Or.inl old
      · rw [settleAppend, pushAppendReply, set_node, Function.update_of_ne e] at mem
        exact .set same mem

theorem Transition.sender (tr : Transition c a c') {t : AppendThread}
    (mem : t ∈ (c'.node q).appendThreads) : Sender c a q t := by
  cases tr with
  | electionTick r now timeout =>
      refine .set ?_ mem
      unfold Replica.electionTick
      split <;> rfl
  | voteSend r k t _ _ _ _ | voteFail r k t _ _ =>
      refine .set ?_ mem
      rfl
  | voteDeliver r k now t args _ _ _ =>
      have quiet : ((c.node t.peer).requestVote args now).1.appendThreads =
          (c.node t.peer).appendThreads := by
        obtain ⟨_, _, _, _, _, e⟩ := (c.node t.peer).requestVote_eq args now
        rw [e]
      exact .set quiet (pushVoteReply_same (·.appendThreads) (fun _ _ _ => rfl) r k _ q ▸ mem)
  | voteReturn r k reply now t _ _ _ =>
      refine .set ?_ mem
      rcases (c.node r).voteReply_cases t.savedCurrentTerm reply now with
        ⟨e, _⟩ | ⟨_, _, e⟩ | ⟨_, _, ⟨_, e⟩ | ⟨_, _, _, e⟩⟩ <;> rw [e] <;> rfl
  | raftImpl r =>
      cases thread : (c.node r).raftThread with
      | spawning saved =>
          by_cases e : q = r
          · subst e
            rw [set_node, Function.update_self, Replica.raftImpl, thread] at mem
            rcases List.mem_append.mp mem with old | new
            · exact .same old
            · obtain ⟨p, hp, rfl⟩ := List.mem_map.mp new
              exact .starts saved p rfl thread (AList.mem_keys.mpr hp)
          · rw [set_node, Function.update_of_ne e] at mem
            exact .same mem
      | isLeader =>
          refine .set ?_ mem
          rw [Replica.raftImpl, thread]
          exact Replica.leaderAppend_senders _ _ _
      | relocking saved rest =>
          refine .set ?_ mem
          rw [Replica.raftImpl, thread]
          exact Replica.leaderAppend_senders _ _ _
      | updatingPeers saved u rest =>
          refine .set ?_ mem
          rw [Replica.raftImpl, thread]
          cases u <;> rfl
      | top | swapped | sleeping =>
          refine .set ?_ mem
          rw [Replica.raftImpl, thread]
  | appendSend r k junk t ht none waiting hp =>
      by_cases e : q = r
      · subst e
        rw [set_node, Function.update_self] at mem
        rcases List.mem_or_eq_of_mem_modify mem with old | ⟨u, hu, rfl⟩
        · exact .same old
        · obtain rfl : u = t := Option.some.inj (hu.symm.trans ht)
          exact .sends k junk u rfl ht none waiting hp
      · rw [set_node, Function.update_of_ne e] at mem
        exact .same mem
  | appendDeliver r k now t args ht ha _ =>
      refine .settle ((c.node t.peer).quiet_appendEntries args now).appendThreads
        (fun ret u replied hu => ?_) mem
      obtain rfl : u = t := Option.some.inj (hu.symm.trans ht)
      exact Or.inr ⟨args, ha, u.peer, now, replied⟩
  | appendUpdate p j h peer _ _ =>
      refine .set ?_ mem
      cases peer <;> rfl
  | appendResume p j h _ _ =>
      have quiet := (Replica.quiet_checkIndex
        { c.node p with handlers := (c.node p).handlers.eraseIdx j } h.current).trans
        (Replica.quiet_appendRest _ h.args h.rest)
      exact .settle quiet.appendThreads
        (fun ret u replied _ => Or.inl (Replica.appendRest_success replied)) mem
  | appendReturn r k reply now t args _ _ _ _ =>
      have same : ((c.node r).appendReply t.peer t.savedCurrentTerm t.nextIndex args.entries.length
          reply now).appendThreads = (c.node r).appendThreads := by
        rcases (c.node r).appendReply_cases t.peer t.savedCurrentTerm t.nextIndex
          args.entries.length reply now with ⟨_, e⟩ | ⟨_, quiet⟩
        · rw [e]
        · exact quiet.appendThreads
      refine .modify same (fun u hu => ?_) mem
      exact .goesOn u u.replies true (List.mem_of_getElem? hu) (by simp) fun _ h => Or.inl h
  | appendFail r k t _ _ =>
      refine .modify rfl (fun u hu => ?_) mem
      exact .goesOn u u.replies true (List.mem_of_getElem? hu) (by simp) fun _ h => Or.inl h
  | executer r ok => exact .set (Replica.quiet_executer _ ok).appendThreads mem
  | clientGet r key | clientPut r key value =>
      exact .set (Replica.quiet_clientCall _ _).appendThreads mem
  | addServer r args => exact .set (Replica.quiet_addServer _ args).appendThreads mem
  | removeServer r serverId => exact .set (Replica.quiet_removeServer _ serverId).appendThreads mem
  | callStep r j now call p _ hp =>
      refine .set (x := { p.1 with calls := _ }) ?_ mem
      rcases Replica.advance_cases hp with ⟨_, e⟩ | ⟨_, quiet⟩
      · rw [e]
      · exact quiet.appendThreads

/-- The step makes replica `q` leader. -/
def Elects (q : Int) (c : Cluster) : Action → Prop
  | .voteReturn r k reply now => r = q ∧ (c.node r).state.role = .candidate ∧
      ∃ t ∈ (c.node r).voteThreads[k]?,
        ((c.node r).voteReply t.savedCurrentTerm reply now).state.role = .leader
  | _ => False

theorem set_office {won : Prop} {r : Int} {x : Replica}
    (h : q = r → Replica.Office won (c.node r) x) :
    Replica.Office won (c.node q) ((c.set r x).node q) :=
  set_cases (fun here => here ▸ h here) fun _ => .same rfl

theorem Transition.office (tr : Transition c a c') (bare : ∀ p, (c.node p).Bare)
    (other : ∀ k reply now, a ≠ .appendReturn q k reply now) :
    Replica.Office (Elects q c a) (c.node q) (c'.node q) := by
  have grows (abides : c.Abides .growing a) :
      Replica.Office (Elects q c a) (c.node q) (c'.node q) :=
    (Replica.Changes.grows (tr.changes bare abides q)).office
  cases tr with
  | electionTick r now timeout => exact set_office fun _ => Replica.electionTick_office _ _ _
  | voteDeliver r k now t args _ _ _ =>
      exact (set_office fun _ => Replica.requestVote_office _ _ _).congr
        (pushVoteReply_state _ _ _ _ _)
  | voteReturn r k reply now t ht _ _ =>
      refine set_office fun e => ?_
      cases (c.node r).voteReply_office t.savedCurrentTerm reply now with
      | stays role term logs next => exact .stays role term logs next
      | follows role next => exact .follows role next
      | stands role next => exact .stands role next
      | rises won role term logs next =>
          exact .rises ⟨e.symm, won.1, t, ht, won.2⟩ role term logs next
  | raftImpl r =>
      by_cases updates : ∃ saved u rest, (c.node r).raftThread = .updatingPeers saved u rest
      · obtain ⟨saved, u, rest, thread⟩ := updates
        refine set_office fun _ => ?_
        rw [Replica.raftImpl, thread]
        exact (Replica.updatePeers_office _ u).congr rfl
      · exact grows ⟨True.intro, fun _ => True.intro, fun saved u rest thread =>
          updates ⟨saved, u, rest, thread⟩⟩
  | appendSend r k junk t _ _ _ _ =>
      exact set_office fun _ =>
        .stays rfl rfl List.prefix_rfl fun _ _ => Replica.lookup_subscript
  | appendDeliver r k now t args ht ha _ =>
      exact (set_office fun _ => Replica.appendEntries_office _ args now
        ((bare r).threads t (List.mem_of_getElem? ht) args ha)).congr
          (settleAppend_state _ _ _ _ _ _ _ _)
  | appendUpdate p j h peer _ _ =>
      exact set_office fun _ => (Replica.updatePeers_office _ peer).congr rfl
  | appendResume p j h hj hu =>
      refine grows fun x hx => ?_
      obtain rfl : x = h := Option.some.inj (hx.symm.trans hj)
      refine ⟨fun u some => ?_, fun _ _ _ => True.intro⟩
      rw [hu] at some
      cases some
  | appendReturn r k reply now t args _ _ _ _ =>
      exact set_office fun e => absurd (e ▸ rfl) (other k reply now)
  | callStep r j now call p hc hp =>
      exact set_office fun _ => (Replica.advance_office hc hp).congr rfl
  | _ => exact grows (by simp [Abides, Replica.Rules.growing])

end Cluster
end OhMyDb
