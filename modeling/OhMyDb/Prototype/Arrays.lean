import OhMyDb.Prototype.Slices

/-!
The arrays behind the slices of the prototype. A slice that a request has taken of the log
is read when the mutex has been released, and `append` may write to the same array meanwhile.
As long as no field is encoded that has been overwritten, requests might carry copies of
their entries.
-/

namespace OhMyDb
namespace Prototype
open Execution
open Function (update)
variable {α : Type}

/-- The log is the front of the array. -/
structure Arrays.Backs (m : Arrays α) (log : List (LogEntry α)) : Prop where
  front : (m.cells m.current).take log.length = log
  room : log.length ≤ m.capacity

/-- `append` makes of the array what is made of the log. -/
theorem Arrays.Backs.append {m : Arrays α} {log : List (LogEntry α)} (h : m.Backs log) {k : Nat}
    (inside : k ≤ log.length) (entries : List (LogEntry α)) (capacity : Nat) :
    (m.append k entries capacity).Backs (log.take k ++ entries) := by
  have kept : (m.cells m.current).take k = log.take k := by
    rw [← h.front, List.take_take, Nat.min_eq_left inside]
  have length : (log.take k ++ entries).length = k + entries.length := by
    rw [List.length_append, List.length_take, Nat.min_eq_left inside]
  unfold Arrays.append
  split
  · next fits =>
    refine ⟨?_, length.trans_le fits⟩
    simp only [Function.update_self]
    rw [kept, ← List.append_assoc, List.take_left]
  · refine ⟨?_, length.trans_le (Nat.le_max_right _ _)⟩
    simp only [Function.update_self]
    rw [kept, List.take_length]

theorem matching_le (log entries : List (LogEntry α)) : matching log entries ≤ log.length := by
  fun_induction matching log entries with
  | case1 => exact Nat.zero_le _
  | case2 l ls e es _ ih => exact Nat.succ_le_succ ih
  | case3 => exact Nat.zero_le _

namespace ConsensusModule
variable {cm : ConsensusModule α} {args : AppendEntriesArgs α}

/-- What a call of `append` makes of a log. -/
def appendTo (log : List (LogEntry α)) (p : Option (Nat × List (LogEntry α))) :
    List (LogEntry α) :=
  p.elim log fun p => log.take p.1 ++ p.2

theorem appendEntries_log (cm : ConsensusModule α) (args : AppendEntriesArgs α) (now : Int) :
    (cm.appendEntries args now).1.log = appendTo cm.log (cm.inserted args) := by
  have observed : (cm.observeTerm args.term now).log = cm.log ∧
      (args.term = (cm.observeTerm args.term now).currentTerm ↔ cm.currentTerm ≤ args.term) := by
    unfold observeTerm
    split
    · next later => exact ⟨rfl, fun _ => Int.le_of_lt later, fun _ => rfl⟩
    · exact ⟨rfl, fun same => same.ge, fun le => by omega⟩
  have led (x : ConsensusModule α) : (x.observeLeader args.term now).log = x.log := by
    unfold observeLeader
    split <;> rfl
  by_cases unknown : cm.state = .unknown
  · simp [appendEntries, inserted, appendTo, unknown]
  by_cases current : cm.currentTerm ≤ args.term
  · by_cases matched : prevMatches cm.log args
    · simp only [appendEntries, if_neg unknown, if_pos (observed.2.mpr current), led, observed.1,
        if_pos matched]
      simp only [inserted, appendTo, merge, unknown, current, matched, ne_eq, not_false_eq_true,
        true_and]
      split <;> rfl
    · simp [appendEntries, inserted, appendTo, unknown, observed, current, led, matched]
  · simp [appendEntries, inserted, appendTo, unknown, observed, current]

theorem inserted_inside {p : Nat × List (LogEntry α)} (h : p ∈ cm.inserted args) :
    p.1 ≤ cm.log.length := by
  obtain ⟨⟨_, _, matched, _⟩, rfl⟩ :=
    Option.ite_none_right_eq_some.mp h |>.imp_right Option.some.inj
  have inside : (args.prevLogIndex + 1).toNat ≤ cm.log.length := by
    rcases matched with first | ⟨inside, _⟩ <;> omega
  have le := matching_le (cm.log.drop (args.prevLogIndex + 1).toNat) args.entries
  rw [List.length_drop] at le
  dsimp only
  omega

/-- The requests of its goroutines. -/
def requests (cm : ConsensusModule α) : List (Option (AppendEntriesArgs α)) :=
  cm.heartbeats.map (·.args)

/-- A step in which nothing is asked for and nothing appended. -/
structure Idle (cm cm' : ConsensusModule α) : Prop where
  requests : cm'.requests = cm.requests
  log : cm'.log = cm.log

theorem voteReply_idle (cm : ConsensusModule α) (e : Nat) (el : Election)
    (reply : RequestVoteReply) (now : Int) : Idle cm (cm.voteReply e el reply now) := by
  rcases cm.voteReply_cases e el reply now with eq | ⟨_, _, eq⟩ | ⟨_, _, eq⟩
  · rw [eq]
    exact ⟨rfl, rfl⟩
  · rw [eq]
    exact ⟨rfl, rfl⟩
  · rw [eq]
    unfold countVote
    dsimp only
    split <;> exact ⟨rfl, rfl⟩

theorem heartbeatReply_idle (cm : ConsensusModule α) (hb : Heartbeat α) (n : Nat)
    (reply : AppendEntriesReply) (now : Int) : Idle cm (cm.heartbeatReply hb n reply now) := by
  rcases cm.heartbeatReply_cases hb n reply now with ⟨_, eq⟩ | ⟨_, _, eq⟩ | ⟨_, _, eq⟩
  · rw [eq]
    exact ⟨rfl, rfl⟩
  · obtain ⟨_, _, same, _⟩ := (cm.advance hb n).commitLoop_eq
    rw [eq, same]
    exact ⟨rfl, rfl⟩
  · rw [eq]
    exact ⟨rfl, rfl⟩

theorem updateHeartbeat_requests (cm : ConsensusModule α) (k : Nat)
    {g : Heartbeat α → Heartbeat α} (same : ∀ hb, (g hb).args = hb.args) :
    (cm.updateHeartbeat k g).requests = cm.requests :=
  List.map_modify_of_eq same

end ConsensusModule

namespace Network
variable {s s' : Network α} {a : Action α}

theorem set_same {β : Type} (f : ConsensusModule α → β) {i : Int} {cm : ConsensusModule α}
    (same : f cm = f (s.node i)) (j : Int) : f ((s.set i cm).node j) = f (s.node j) := by
  by_cases e : j = i
  · rw [e, set_node, Function.update_self, same]
  · rw [set_node, Function.update_of_ne e]

/-- What a step does to a log is a call of `append`, if anything. -/
theorem Transition.log (tr : Transition s a s') (j : Int) :
    (s'.node j).log = ConsensusModule.appendTo (s.node j).log (s.appended j a) := by
  have idle {i : Int} {cm : ConsensusModule α} (same : cm.log = (s.node i).log) :
      ((s.set i cm).node j).log = (s.node j).log := set_same (·.log) same j
  cases tr with
  | tick i k now timeout cm ticks =>
      obtain ⟨_, _, rfl⟩ := ticks
      exact idle (by rfl)
  | startElection i | voteSend i | voteFail i | heartbeatSend i | heartbeatFail i | stop i =>
      exact idle (by rfl)
  | voteServe i e k now el call args _ _ _ _ =>
      refine (set_same (·.log) (by rfl) j).trans (idle ?_)
      exact ((s.node call.peerId).calm_requestVote args now).2.1
  | voteReturn i e k now el call reply _ _ _ =>
      exact idle ((s.node i).voteReply_idle e el reply now).log
  | leaderSendHeartbeats i =>
      refine idle ?_
      unfold ConsensusModule.leaderSendHeartbeats
      split <;> rfl
  | heartbeatServe i k now hb args found sent _ _ =>
      obtain ⟨peerId, saved, ni, _, reply, returned, received⟩ := hb
      cases sent
      refine (set_same (·.log) (by rfl) j).trans ?_
      simp only [appended, found]
      by_cases e : peerId = j
      · subst e
        rw [if_pos rfl, set_node, Function.update_self]
        exact (s.node peerId).appendEntries_log args now
      · rw [if_neg e, set_node, Function.update_of_ne (Ne.symm e)]
        rfl
  | heartbeatReturn i k now hb args reply _ _ _ _ =>
      exact idle (ConsensusModule.heartbeatReply_idle _ hb args.entries.length reply now).log
  | submit i command =>
      simp only [appended, ConsensusModule.submit]
      by_cases e : i = j
      · subst e
        rw [set_node, Function.update_self]
        split
        · next lead => simp [ConsensusModule.appendTo, lead]
        · next idle => simp [ConsensusModule.appendTo, idle]
      · rw [set_node, Function.update_of_ne (Ne.symm e), if_neg fun both => e both.1]
        rfl

theorem appended_inside {j : Int} {p : Nat × List (LogEntry α)} (h : p ∈ s.appended j a) :
    p.1 ≤ (s.node j).log.length := by
  cases a with
  | submit i command =>
      obtain ⟨⟨rfl, _⟩, rfl⟩ := Option.ite_none_right_eq_some.mp h |>.imp_right Option.some.inj
      exact Nat.le_refl _
  | heartbeatServe i k now =>
      simp only [appended] at h
      split at h
      · obtain ⟨_, h⟩ := Option.ite_none_right_eq_some.mp h
        exact ConsensusModule.inserted_inside h
      · cases h
  | _ => cases h

/-- Only a goroutine that is about to send makes a request. -/
theorem Transition.request (tr : Transition s a s') {i : Int} {k : Nat}
    {args : AppendEntriesArgs α} (h : (s'.node i).requests[k]? = some (some args)) :
    (s.node i).requests[k]? = some (some args) ∨ a = .heartbeatSend i k := by
  have idle (same : (s'.node i).requests = (s.node i).requests) :
      (s.node i).requests[k]? = some (some args) ∨ a = .heartbeatSend i k := Or.inl (same ▸ h)
  cases tr with
  | tick j k now timeout cm ticks =>
      obtain ⟨_, _, rfl⟩ := ticks
      exact idle (set_same (·.requests) (by rfl) i)
  | startElection | voteSend | voteFail | stop => exact idle (set_same (·.requests) (by rfl) i)
  | voteServe j e k now el call args _ _ _ _ =>
      refine idle ((set_same (·.requests) (by rfl) i).trans (set_same (·.requests) ?_ i))
      exact congrArg (List.map (·.args))
        ((s.node call.peerId).calm_requestVote args now).1.heartbeats
  | voteReturn j e k now el call reply _ _ _ =>
      refine idle (set_same (·.requests) ?_ i)
      exact ((s.node j).voteReply_idle e el reply now).requests
  | leaderSendHeartbeats j =>
      revert h
      rw [set_node]
      by_cases e : i = j
      · subst e
        rw [Function.update_self]
        unfold ConsensusModule.leaderSendHeartbeats
        split
        · exact Or.inl
        · -- the new goroutines have not sent anything yet
          intro h
          rw [ConsensusModule.requests, List.map_append, List.getElem?_append] at h
          split at h
          · exact Or.inl h
          · obtain ⟨hb, mem, none⟩ := List.mem_map.mp (List.mem_of_getElem? h)
            obtain ⟨_, _, rfl⟩ := List.mem_map.mp mem
            cases none
      · rw [Function.update_of_ne e]
        exact Or.inl
  | heartbeatSend j l hb found _ _ _ =>
      by_cases e : i = j ∧ k = l
      · exact Or.inr (by rw [e.1, e.2])
      · refine Or.inl ?_
        by_cases here : i = j
        · subst here
          rw [set_node, Function.update_self, ConsensusModule.requests,
            ConsensusModule.updateHeartbeat, List.getElem?_map,
            List.getElem?_modify_ne _ _ fun same => e ⟨rfl, same.symm⟩] at h
          rw [ConsensusModule.requests, List.getElem?_map, h]
        · rwa [set_node, Function.update_of_ne here] at h
  | heartbeatServe j k now hb args found sent _ _ =>
      refine idle ((set_same (·.requests) ?_ i).trans (set_same (·.requests) ?_ i))
      · exact ConsensusModule.updateHeartbeat_requests _ k fun _ => rfl
      · exact congrArg (List.map (·.args))
          ((s.node hb.peerId).calm_appendEntries args now).1.heartbeats
  | heartbeatReturn j k now hb args reply _ _ _ _ =>
      refine idle (set_same (·.requests) ?_ i)
      exact (ConsensusModule.heartbeatReply_idle _ hb args.entries.length reply now).requests.trans
        ((s.node j).updateHeartbeat_requests k fun _ => rfl)
  | heartbeatFail j k hb _ =>
      refine idle (set_same (·.requests) ?_ i)
      exact (s.node j).updateHeartbeat_requests k fun _ => rfl
  | submit j command =>
      refine idle (set_same (·.requests) ?_ i)
      unfold ConsensusModule.submit
      split <;> rfl

end Network

namespace Sending
variable {g : Sending α} {es : List (LogEntry α)}

/-- What has been read is the front of these entries, and a command is read before its term. -/
structure Follows (g : Sending α) (es : List (LogEntry α)) : Prop where
  commands : g.commands <+: es.map (·.command)
  terms : g.terms <+: es.map (·.term)
  order : g.terms.length ≤ g.commands.length

theorem Follows.start (array : ℕ) (es : List (LogEntry α)) : Follows { array := array } es :=
  ⟨List.nil_prefix, List.nil_prefix, Nat.le_refl _⟩

theorem Follows.read (h : g.Follows es) {e : LogEntry α} (next : es[g.terms.length]? = some e) :
    (g.read e).Follows es := by
  have another {β : Type} {l : List β} {f : LogEntry α → β} (front : l <+: es.map f)
      (here : l.length = g.terms.length) : l ++ [f e] <+: es.map f := by
    have longer := List.take_prefix (l.length + 1) (es.map f)
    rwa [List.take_add_one, ← List.prefix_iff_eq_take.mp front, List.getElem?_map, here, next]
      at longer
  unfold Sending.read
  split
  · next level =>
    exact ⟨another h.commands level, h.terms, by simp [level]⟩
  · next behind =>
    have order := h.order
    exact ⟨h.commands, another h.terms rfl, by simp; omega⟩

/-- Once all has been read. -/
theorem Follows.entries (h : g.Follows es) (all : g.terms.length = es.length) :
    g.entries = es := by
  have le := h.commands.length_le
  have order := h.order
  rw [List.length_map] at le
  have terms := h.terms.eq_of_length (by rw [all, List.length_map])
  have commands := h.commands.eq_of_length (by rw [List.length_map]; omega)
  rw [Sending.entries, terms, commands, List.zipWith_map, List.zipWith_self]
  exact List.map_id es

end Sending

namespace SharedNetwork
variable {n : Nat} {h : List (SharedNetwork α × SharedAction α)} {s s' : SharedNetwork α}

/-- The field that is read for a request is as it was when the request was made. -/
def EncodesAsRead (s : SharedNetwork α) : SharedAction α → Prop
  | .encode i k => ∀ hb ∈ (s.network.node i).heartbeats[k]?, ∀ args ∈ hb.args,
      ∀ e ∈ s.cell i k hb, ∀ e' ∈ args.entries[(s.sending i k).terms.length]?,
        (s.sending i k).read e = (s.sending i k).read e'
  | .step _ _ => True

/-- The step of the modules meets a condition. -/
def Steps (ok : Network α → Action α → Prop) (s : SharedNetwork α) : SharedAction α → Prop
  | .step a _ => ok s.network a
  | .encode _ _ => True

instance [DecidableEq α] (s : SharedNetwork α) (a : SharedAction α) :
    Decidable (s.EncodesAsRead a) :=
  match a with
  | .encode _ _ => inferInstanceAs (Decidable (∀ _, _ → ∀ _, _ → ∀ _, _ → ∀ _, _ → _ = _))
  | .step _ _ => inferInstanceAs (Decidable True)

instance {ok : Network α → Action α → Prop} [∀ s a, Decidable (ok s a)] (s : SharedNetwork α)
    (a : SharedAction α) : Decidable (s.Steps ok a) :=
  match a with
  | .step a _ => inferInstanceAs (Decidable (ok s.network a))
  | .encode _ _ => inferInstanceAs (Decidable True)

/-- What has been encoded of a request is as it was when the request was made. -/
def Faithful (s : SharedNetwork α) : Prop :=
  ∀ i k args, (s.network.node i).requests[k]? = some (some args) →
    (s.sending i k).Follows args.entries

/-- A step of a module is taken with the entries that have been encoded, if it serves a request;
and an entry is read of a request that has been made. -/
theorem step_cases {a : SharedAction α} (hs : s.step a = some s') :
    (∃ b capacity t t', a = .step b capacity ∧ s.transmitted b = some t ∧
      t.step b = some t' ∧ s' = { s.sent b with
        network := t'
        arrays := fun j => (t.appended j b).elim (s.arrays j) fun p =>
          (s.arrays j).append p.1 p.2 capacity }) ∨
    ∃ i k hb args e, a = .encode i k ∧ (s.network.node i).heartbeats[k]? = some hb ∧
      hb.args = some args ∧ (s.sending i k).terms.length < args.entries.length ∧
      s.cell i k hb = some e ∧ s' = s.setSending i k ((s.sending i k).read e) := by
  cases a with
  | step b capacity =>
      obtain ⟨t, ht, hs⟩ := Option.bind_eq_some_iff.mp hs
      obtain ⟨t', ht', rfl⟩ := Option.map_eq_some_iff.mp hs
      exact Or.inl ⟨b, capacity, t, t', rfl, ht, ht', rfl⟩
  | encode i k =>
      simp only [step, encode] at hs
      split at hs
      · next hb found =>
        split at hs
        · next args made =>
          obtain ⟨more, hs⟩ := Option.ite_none_right_eq_some.mp hs
          obtain ⟨e, he, rfl⟩ := Option.map_eq_some_iff.mp hs
          exact Or.inr ⟨i, k, hb, args, e, rfl, found, made, more, he, rfl⟩
        · cases hs
      · cases hs

/-- A request is served with what has been encoded of it, once that is all. -/
theorem transmitted_cases {b : Action α} {t : Network α} (ht : s.transmitted b = some t) :
    t = s.network ∨ ∃ i k now hb args, b = .heartbeatServe i k now ∧
      (s.network.node i).heartbeats[k]? = some hb ∧ hb.args = some args ∧
      (s.sending i k).terms.length = args.entries.length ∧
      t = s.network.set i ((s.network.node i).updateHeartbeat k fun hb =>
        { hb with args := some { args with entries := (s.sending i k).entries } }) := by
  cases b with
  | heartbeatServe i k now =>
      simp only [transmitted] at ht
      split at ht
      · next hb found =>
        split at ht
        · next args made =>
          obtain ⟨all, rfl⟩ := Option.ite_none_right_eq_some.mp ht |>.imp_right Option.some.inj
          exact Or.inr ⟨i, k, now, hb, args, rfl, found, made, all, rfl⟩
        · cases ht
      · cases ht
  | _ => exact Or.inl (Option.some.inj ht).symm

/-- A request that has been encoded so is served with the entries it was made with. -/
theorem transmitted_eq {b : Action α} {t : Network α} (faithful : s.Faithful)
    (ht : s.transmitted b = some t) : t = s.network := by
  rcases transmitted_cases ht with same | ⟨i, k, now, hb, args, rfl, found, sent, all, rfl⟩
  · exact same
  · have made : (s.network.node i).requests[k]? = some (some args) := by
      rw [ConsensusModule.requests, List.getElem?_map, found, Option.map_some, sent]
    have same : { hb with args := some { args with entries := (s.sending i k).entries } } =
        hb := by
      rw [(faithful i k args made).entries all, ← sent]
    rw [ConsensusModule.updateHeartbeat, List.modify_of_eq found same, Network.set,
      Function.update_eq_self]

/-- A step is one of the modules, or leaves them alone. -/
theorem step_network {a : SharedAction α} (faithful : s.Faithful) (hs : s.step a = some s') :
    match a with
    | .step a _ => s.network.step a = some s'.network
    | .encode _ _ => s'.network = s.network := by
  rcases step_cases hs with ⟨b, capacity, t, t', rfl, ht, ht', rfl⟩ |
    ⟨i, k, hb, args, e, rfl, _, _, _, _, rfl⟩
  · exact transmitted_eq faithful ht ▸ ht'
  · rfl

theorem setSending_cases {P : Sending α → Prop} {i j : Int} {k l : ℕ} {g : Sending α}
    (here : i = j → k = l → P g) (there : ¬ (i = j ∧ k = l) → P (s.sending i k)) :
    P ((s.setSending j l g).sending i k) := by
  unfold setSending
  dsimp only
  by_cases e : i = j
  · subst e
    rw [Function.update_self]
    by_cases e : k = l
    · subst e
      rw [Function.update_self]
      exact here rfl rfl
    · rw [Function.update_of_ne e]
      exact there fun both => e both.2
  · rw [Function.update_of_ne e]
    exact there fun both => e both.1

theorem Faithful.preserved {a : SharedAction α} (faithful : s.Faithful) (ok : s.EncodesAsRead a)
    (hs : s.step a = some s') : s'.Faithful := by
  have moved := step_network faithful hs
  rcases step_cases hs with ⟨b, capacity, t, t', rfl, _, _, rfl⟩ |
    ⟨i, k, hb, args, e, rfl, found, sent, more, he, rfl⟩
  · intro i k args made
    have tr := (Network.Transition.of_step moved).2
    change ((s.sent b).sending i k).Follows args.entries
    rcases tr.request made with old | rfl
    · cases b with
      | heartbeatSend j l =>
          refine setSending_cases (P := fun g => g.Follows args.entries) (fun _ _ => ?_)
            fun _ => ?_
          · exact .start _ _
          · exact faithful i k args old
      | _ => exact faithful i k args old
    · refine setSending_cases (P := fun g => g.Follows args.entries) (fun _ _ => ?_) ?_
      · exact .start _ _
      · exact fun other => absurd ⟨rfl, rfl⟩ other
  · intro i' k' args' made
    refine setSending_cases (P := fun g => g.Follows args'.entries) ?_
      fun _ => faithful i' k' args' made
    rintro rfl rfl
    obtain rfl : args = args' := by
      have made : (s.network.node i').requests[k']? = some (some args') := made
      rw [ConsensusModule.requests, List.getElem?_map, found, Option.map_some, sent] at made
      exact Option.some.inj (Option.some.inj made)
    have next := List.getElem?_eq_getElem more
    rw [ok hb found args sent e he _ next]
    exact (faithful i' k' args made).read next

theorem startUp_faithful (n : Nat) : (startUp α n).Faithful :=
  fun _ _ _ made => absurd (List.mem_of_getElem? made) List.not_mem_nil

/-- In every run the logs are the fronts of the arrays. -/
theorem backs (run : Run step (startUp α n) h s) (j : Int) :
    (s.arrays j).Backs (s.network.node j).log := by
  refine run.always (I := fun s => (s.arrays j).Backs (s.network.node j).log)
    ⟨rfl, Nat.le_refl _⟩ fun s a s' backs hs => ?_
  rcases step_cases hs with ⟨b, capacity, t, t', rfl, ht, ht', rfl⟩ |
    ⟨i, k, hb, args, e, rfl, _, _, _, _, rfl⟩
  · have tr := (Network.Transition.of_step ht').2
    have same : (t.node j).log = (s.network.node j).log := by
      rcases transmitted_cases ht with rfl | ⟨i, k, now, hb, args, rfl, _, _, _, rfl⟩
      · rfl
      · exact Network.set_same (·.log) (by rfl) j
    rw [← same] at backs
    have log := tr.log j
    change ((t.appended j b).elim (s.arrays j) fun p =>
      (s.arrays j).append p.1 p.2 capacity).Backs (t'.node j).log
    rw [log]
    cases call : t.appended j b with
    | none => exact backs
    | some p => exact backs.append (Network.appended_inside call) p.2 capacity
  · exact backs

/-- The steps of the modules in a run. -/
def moduleStep (_ : SharedNetwork α) : SharedAction α → Option (Action α)
  | .step a _ => some a
  | .encode _ _ => none

/-- Encoded as they were read, requests might as well carry copies of their entries. -/
theorem driven_run (run : Run step (startUp α n) h s) (encodes : Meets EncodesAsRead h) :
    Run Network.step (Network.startUp α n) (driven network moduleStep h) s.network := by
  suffices both : s.Faithful ∧
      Run Network.step (Network.startUp α n) (driven network moduleStep h) s.network from both.2
  refine run.invariant (I := fun h s => s.Faithful ∧
    Run Network.step (Network.startUp α n) (driven network moduleStep h) s.network) encodes
    ⟨startUp_faithful n, .start⟩ ?_
  rintro h s a s' ⟨faithful, run⟩ ok hs
  refine ⟨faithful.preserved ok hs, ?_⟩
  have moved := step_network faithful hs
  cases a with
  | step a capacity => exact .next run moved
  | encode i k =>
      rw [moved]
      exact run

theorem commitsSound (run : Run step (startUp α n) h s) (encodes : Meets EncodesAsRead h)
    (later : Meets (Steps Network.RepliesLater) h) (wins : Meets (Steps Network.WinsInItsTerm) h)
    (current : Meets (Steps Network.SuccessesOfThisTerm) h)
    (counts : Meets (Steps Network.CountsReplies) h) :
    Network.CommitsSound (h.map (·.1.network)) s.network := by
  have steps {ok : Network α → Action α → Prop} (meets : Meets (Steps ok) h) :
      Meets ok (driven network moduleStep h) := by
    refine meets.driven fun s a ok b hb => ?_
    cases a with
    | step a capacity => exact Option.some.inj hb ▸ ok
    | encode i k => cases hb
  have sound := Network.commitsSound_of_run (driven_run run encodes) (steps later) (steps wins)
    (steps current) (steps counts)
  refine sound.mono fun t ht => ?_
  obtain ⟨q, hq, rfl⟩ := List.mem_map.mp ht
  obtain ⟨p, hp, hq⟩ := List.mem_filterMap.mp hq
  obtain ⟨b, _, rfl⟩ := Option.map_eq_some_iff.mp hq
  exact List.mem_map.mpr ⟨p, hp, rfl⟩

/-- The command and the term of the entry that module 1 is sent are encoded one after the
other. -/
def plainCommit : List (SharedAction Unit) :=
  (Network.plainCommit.take 16).map (.step · 1) ++ [.encode 0 2, .encode 0 2] ++
    (Network.plainCommit.drop 16).map (.step · 1)

/-- The heartbeat was sent before the entry was there. Its reply lets module 2 count,
which has not been sent anything. -/
def earlyCommit : List (SharedAction Unit) :=
  (Network.plainElection ++ [Action.leaderSendHeartbeats 0, .heartbeatSend 0 0,
    .heartbeatServe 0 0 180, .submit 0 (), .heartbeatReturn 0 0 190]).map (.step · 1)

theorem commitsSound_plainCommit :
    ((outcome step (startUp Unit 3) plainCommit).2.network.node 0).commits ≠ [] ∧
    Network.CommitsSound ((outcome step (startUp Unit 3) plainCommit).1.map (·.1.network))
      (outcome step (startUp Unit 3) plainCommit).2.network :=
  ⟨by decide +kernel, commitsSound (outcome_run _ _ _) (by decide +kernel) (by decide +kernel)
    (by decide +kernel) (by decide +kernel) (by decide +kernel)⟩

/-- Module 0 commits an entry that it alone has. -/
theorem not_commitsSound : ¬ ∀ (α : Type) (n : Nat)
    (h : List (SharedNetwork α × SharedAction α)) (s : SharedNetwork α),
    Run step (startUp α n) h s → Network.CommitsSound (h.map (·.1.network)) s.network := by
  intro always
  let p := outcome step (startUp Unit 3) earlyCommit
  have committed : ∃ c ∈ (p.2.network.node 0).commits,
      c.commitIndex = 0 ∧ at? c.log 0 = some ⟨(), 1⟩ := by
    decide +kernel
  have alone : ∀ s₀ ∈ p.2.network :: p.1.map (·.1.network), ∀ v ∈ [0, 1, 2],
      at? (s₀.node v).log 0 = some ⟨(), 1⟩ → v = 0 := by
    decide +kernel
  have servers : p.2.network.servers = [0, 1, 2] := by decide +kernel
  obtain ⟨c, hc, commitIndex, entry⟩ := committed
  obtain ⟨⟨A, ⟨sub, most⟩, _, held⟩, _⟩ :=
    always Unit 3 _ _ (outcome_run _ _ _) 0 c (ConsensusModule.mem_commits.mp hc)
  rw [servers] at sub most
  have one : A ⊆ {0} := by
    intro v hv
    obtain ⟨s₀, mem, _, same⟩ := held v hv
    exact Finset.mem_singleton.mpr (alone s₀ mem v (List.mem_toFinset.mp (sub hv))
      ((same 0 commitIndex.ge).trans entry))
  have := Finset.card_le_card one
  simp at this most
  omega

end SharedNetwork
end Prototype
end OhMyDb
