import OhMyDb.Db.Ledger

/-!
Who completes a promise. Each promise belongs to one submitted operation, every
operation on its way through a replica without losing its promise is one that the
replica was asked for, and what a promise receives is the result of executing that
operation unless it was aborted. Which operations are never aborted, and which
results an execution may have, is left to the discipline of a run.
-/

namespace OhMyDb

namespace PromiseStore
variable {ps : PromiseStore} {it : Handle} {res : Res} {p : Handle × Res}

@[simp] theorem fulfil_nextHandle (ps : PromiseStore) (it : Handle) (res : Res) :
    (ps.fulfil it res).nextHandle = ps.nextHandle := by
  unfold fulfil
  split <;> rfl

theorem fulfil_store : (ps.fulfil it res).store ⊆ ps.store := by
  unfold fulfil
  split
  · exact List.erase_subset
  · exact List.Subset.refl _

theorem fulfil_results : ps.results ⊆ (ps.fulfil it res).results := by
  unfold fulfil
  split
  · exact List.subset_cons_self _ _
  · exact List.Subset.refl _

theorem mem_fulfil_results (h : p ∈ (ps.fulfil it res).results) :
    p ∈ ps.results ∨ (it ∈ ps.store ∧ p = (it, res)) := by
  unfold fulfil at h
  split at h
  · next stored => exact (List.mem_cons.mp h).symm.imp_right fun eq => ⟨stored, eq⟩
  · exact Or.inl h

end PromiseStore

namespace RaftOp
variable {ps : PromiseStore} {op : RaftOp} {res : Res} {p : Handle × Res}

@[simp] theorem resolve_nextHandle (op : RaftOp) (ps : PromiseStore) (res : Res) :
    (op.resolve ps res).nextHandle = ps.nextHandle := by
  unfold resolve
  split <;> simp

theorem resolve_store : (op.resolve ps res).store ⊆ ps.store := by
  unfold resolve
  split
  · exact PromiseStore.fulfil_store
  · exact List.Subset.refl _

theorem resolve_results : ps.results ⊆ (op.resolve ps res).results := by
  unfold resolve
  split
  · exact PromiseStore.fulfil_results
  · exact List.Subset.refl _

theorem mem_resolve_results (h : p ∈ (op.resolve ps res).results) :
    p ∈ ps.results ∨ ∃ it ∈ op.promiseHandle, it ∈ ps.store ∧ p = (it, res) := by
  unfold resolve at h
  split at h
  · next it handle => exact (PromiseStore.mem_fulfil_results h).imp_right fun h => ⟨it, handle, h⟩
  · exact Or.inl h

/-- A pending promise stays pending, or it is the operation's and is completed. -/
theorem resolve_pending {it : Handle} (stored : it ∈ ps.store) :
    (it ∈ (op.resolve ps res).store ∧ op.promiseHandle ≠ some it) ∨
      (op.promiseHandle = some it ∧ (it, res) ∈ (op.resolve ps res).results) := by
  unfold resolve
  split
  · next it' handle =>
    by_cases same : it' = it
    · subst same
      refine Or.inr ⟨handle, ?_⟩
      rw [PromiseStore.fulfil, if_pos stored]
      exact List.mem_cons_self
    · refine Or.inl ⟨?_, fun h => same (Option.some.inj (handle.symm.trans h))⟩
      unfold PromiseStore.fulfil
      split
      · exact (List.mem_erase_of_ne (Ne.symm same)).mpr stored
      · exact stored
  · next handle => exact Or.inl ⟨stored, by simp [handle]⟩

/-- Aborting a part of the log completes promises of that part only. -/
structure Aborts (es : List LogEntry) (ps ps' : PromiseStore) : Prop where
  nextHandle : ps'.nextHandle = ps.nextHandle
  results : ps.results ⊆ ps'.results
  new : ∀ p ∈ ps'.results, p ∈ ps.results ∨
    ∃ e ∈ es, ∃ it ∈ e.op.promiseHandle, it ∈ ps.store ∧ p.1 = it

theorem aborts (es : List LogEntry) (ps : PromiseStore) :
    Aborts es ps (es.foldl (fun ps e => e.op.abort ps) ps) := by
  induction es generalizing ps with
  | nil => exact ⟨rfl, List.Subset.refl _, fun _ => Or.inl⟩
  | cons e es ih =>
      have later := ih (e.op.abort ps)
      refine ⟨later.nextHandle.trans (resolve_nextHandle _ _ _),
        fun _ h => later.results (resolve_results h), fun p hp => ?_⟩
      rcases later.new p hp with h | ⟨x, hx, it, handle, stored, same⟩
      · rcases mem_resolve_results h with h | ⟨it, handle, stored, rfl⟩
        · exact Or.inl h
        · exact Or.inr ⟨e, List.mem_cons_self, it, handle, stored, rfl⟩
      · exact Or.inr ⟨x, List.mem_cons_of_mem _ hx, it, handle, resolve_store stored, same⟩

theorem aborts_pending {es : List LogEntry} {it : Handle} (stored : it ∈ ps.store) :
    (it ∈ (es.foldl (fun ps e => e.op.abort ps) ps).store ∧
        ∀ e ∈ es, e.op.promiseHandle ≠ some it) ∨
      ∃ res, (it, res) ∈ (es.foldl (fun ps e => e.op.abort ps) ps).results := by
  induction es generalizing ps with
  | nil => exact Or.inl ⟨stored, fun _ h => absurd h List.not_mem_nil⟩
  | cons e es ih =>
      rcases resolve_pending stored with ⟨kept, other⟩ | ⟨_, done⟩
      · refine (ih kept).imp_left fun ⟨left, others⟩ => ⟨left, fun x hx => ?_⟩
        rcases List.mem_cons.mp hx with rfl | hx
        · exact other
        · exact others x hx
      · exact Or.inr ⟨_, (aborts es _).results done⟩

end RaftOp

namespace Ledger
variable {D : Discipline} {kept : Command → Prop} {good : Res → Prop} {l l' : Ledger}

/-- The discipline keeps certain operations from being aborted, and their results
to those that are wanted. -/
structure Discipline.Keeps (D : Discipline) (kept : Command → Prop) (good : Res → Prop) :
    Prop where
  cut : ∀ l n, D.cut l n → ∀ e ∈ l.items.drop n, kept e.op.command → ¬ l.Awaits e.op
  execute : ∀ l op ok, D.execute l op ok → kept op.command → l.Awaits op →
    good (op.run l.db ok).2

structure Promised (kept : Command → Prop) (good : Res → Prop) (l : Ledger) : Prop where
  handle : ∀ op it, (op, it) ∈ l.submissions → op.promiseHandle = some it
  issued : ∀ op it, (op, it) ∈ l.submissions → it < l.promises.nextHandle
  unique : ∀ op op' it, (op, it) ∈ l.submissions → (op', it) ∈ l.submissions → op = op'
  queued : ∀ op ∈ l.queued, l.Owns op
  appending : ∀ op ∈ l.appending, l.Owns op
  items : ∀ e ∈ l.items, l.Owns e.op
  committed : ∀ op ∈ l.committed, l.Owns op
  results : ∀ it res, (it, res) ∈ l.promises.results → ∃ op, (op, it) ∈ l.submissions ∧
    (kept op.command → (op, res) ∈ l.executions ∧ good res)
  answers : ∀ call ∈ l.calls, l.Answers call

theorem Answers.mono {call : Call} (sub : l.promises.results ⊆ l'.promises.results)
    (h : l.Answers call) : l'.Answers call := by
  cases call with
  | returned op it ret => exact h.imp_right fun ⟨res, mem, eq⟩ => ⟨res, sub mem, eq⟩
  | _ => exact True.intro

theorem Owns.mono {op : RaftOp} (sub : l.submissions ⊆ l'.submissions) (h : l.Owns op) :
    l'.Owns op :=
  h.imp_right fun ⟨it, mem⟩ => ⟨it, sub mem⟩

theorem Promised.start : Promised kept good .start where
  handle _ _ h := absurd h List.not_mem_nil
  issued _ _ h := absurd h List.not_mem_nil
  unique _ _ _ h := absurd h List.not_mem_nil
  queued _ h := absurd h List.not_mem_nil
  appending _ h := absurd h List.not_mem_nil
  items _ h := absurd h List.not_mem_nil
  committed _ h := absurd h List.not_mem_nil
  results _ _ h := absurd h List.not_mem_nil
  answers _ h := absurd h List.not_mem_nil

/-- The promise of an operation the replica has in hand is that of its call. -/
theorem Promised.owner {op : RaftOp} {it : Handle} (p : Promised kept good l) (owns : l.Owns op)
    (handle : op.promiseHandle = some it) : (op, it) ∈ l.submissions := by
  rcases owns with none | ⟨it', mem⟩
  · rw [none] at handle
    cases handle
  · rw [p.handle op it' mem] at handle
    cases handle
    exact mem

/-- The promises may change when no more than what is submitted is completed. -/
theorem Promised.withPromises {ps : PromiseStore} {done : List (RaftOp × Res)}
    (p : Promised kept good l) (nextHandle : ps.nextHandle = l.promises.nextHandle)
    (grown : l.promises.results ⊆ ps.results) (executed : l.executions ⊆ done)
    (new : ∀ it res, (it, res) ∈ ps.results → (it, res) ∈ l.promises.results ∨
      ∃ op, (op, it) ∈ l.submissions ∧ (kept op.command → (op, res) ∈ done ∧ good res)) :
    Promised kept good { l with promises := ps, executions := done } :=
  { p with
    issued := fun op it h => nextHandle ▸ p.issued op it h
    results := by
      intro it res h
      rcases new it res h with h | h
      · obtain ⟨op, mem, sound⟩ := p.results it res h
        exact ⟨op, mem, fun k => (sound k).imp_left fun h => executed h⟩
      · exact h
    answers := fun call h => (p.answers call h).mono grown }

/-- The calls may change when their operations stay. -/
theorem Promised.withCalls {calls : List Call} (p : Promised kept good l)
    (same : submissions { l with calls := calls } = l.submissions)
    (answers : ∀ call ∈ calls, l.Answers call) : Promised kept good { l with calls := calls } where
  handle := same ▸ p.handle
  issued := same ▸ p.issued
  unique := same ▸ p.unique
  queued op h := (p.queued op h).mono fun _ h => same ▸ h
  appending op h := (p.appending op h).mono fun _ h => same ▸ h
  items e h := (p.items e h).mono fun _ h => same ▸ h
  committed op h := (p.committed op h).mono fun _ h => same ▸ h
  results := same ▸ p.results
  answers call h := (answers call h).mono (List.Subset.refl _)

theorem submit_submissions (l : Ledger) (ps : PromiseStore) (op : RaftOp) (it : Handle) :
    submissions { l with promises := ps, calls := l.calls ++ [.submitting op it] } =
      l.submissions ++ [(op, it)] := by
  simp [submissions, Call.submission]

theorem Promised.submit (p : Promised kept good l) (command : Command) :
    Promised kept good { l with
      promises := l.promises.insert.1
      calls := l.calls ++ [.submitting
        { command := command, promiseHandle := some l.promises.insert.2 }
        l.promises.insert.2] } := by
  have eq := submit_submissions l l.promises.insert.1
    { command := command, promiseHandle := some l.promises.insert.2 } l.promises.insert.2
  generalize hl : ({ l with
    promises := l.promises.insert.1
    calls := l.calls ++ [.submitting
      { command := command, promiseHandle := some l.promises.insert.2 }
      l.promises.insert.2] } : Ledger) = l' at eq ⊢
  have grown : l.submissions ⊆ l'.submissions := by
    rw [eq]
    exact List.subset_append_left _ _
  have cases_ {op : RaftOp} {it : Handle} (h : (op, it) ∈ l'.submissions) :
      ((op, it) ∈ l.submissions ∧ it < l.promises.nextHandle) ∨
      (op = { command := command, promiseHandle := some it } ∧ it = l.promises.nextHandle) := by
    rw [eq] at h
    rcases List.mem_append.mp h with h | h
    · exact Or.inl ⟨h, p.issued op it h⟩
    · cases List.mem_singleton.mp h
      exact Or.inr ⟨rfl, rfl⟩
  have next : l'.promises.nextHandle = l.promises.nextHandle + 1 := by rw [← hl]; rfl
  have results : l'.promises.results = l.promises.results := by rw [← hl]; rfl
  constructor
  case handle =>
    intro op it h
    rcases cases_ h with ⟨old, _⟩ | ⟨rfl, _⟩
    · exact p.handle op it old
    · rfl
  case issued =>
    intro op it h
    rw [next]
    rcases cases_ h with ⟨_, lt⟩ | ⟨_, rfl⟩
    · exact Nat.lt_succ_of_lt lt
    · exact Nat.lt_succ_self _
  case unique =>
    intro op op' it h h'
    rcases cases_ h with ⟨old, lt⟩ | ⟨rfl, at_⟩
    · rcases cases_ h' with ⟨old', _⟩ | ⟨_, at_⟩
      · exact p.unique op op' it old old'
      · exact absurd lt (at_ ▸ Nat.lt_irrefl _)
    · rcases cases_ h' with ⟨_, lt⟩ | ⟨rfl, _⟩
      · exact absurd lt (at_ ▸ Nat.lt_irrefl _)
      · rfl
  case results =>
    intro it res h
    rw [results] at h
    obtain ⟨op, mem, sound⟩ := p.results it res h
    exact ⟨op, grown mem, by rw [← hl]; exact sound⟩
  case answers =>
    intro call h
    rw [← hl] at h
    rcases List.mem_append.mp h with h | h
    · exact (p.answers call h).mono (by rw [results]; exact List.Subset.refl _)
    · obtain rfl := List.mem_singleton.mp h
      exact True.intro
  case queued => exact fun op h => (p.queued op (by rw [← hl] at h; exact h)).mono grown
  case appending => exact fun op h => (p.appending op (by rw [← hl] at h; exact h)).mono grown
  case items => exact fun e h => (p.items e (by rw [← hl] at h; exact h)).mono grown
  case committed => exact fun op h => (p.committed op (by rw [← hl] at h; exact h)).mono grown

theorem Promised.step (p : Promised kept good l) (keeps : D.Keeps kept good)
    (st : Step D l l') : Promised kept good l' := by
  cases st with
  | move queued appending es hq ha he =>
      refine { p with queued := fun op h => ?_, appending := fun op h => ?_, items := ?_ }
      · exact (hq op h).elim (p.queued op) fun h => h
      · exact (ha op h).elim (p.queued op) (p.appending op)
      · intro e h
        rcases List.mem_append.mp h with h | h
        · exact p.items e h
        · rcases he e h with h | h | h
          · exact p.queued _ h
          · exact p.appending _ h
          · exact h
  | cut n ok =>
      have aborts := RaftOp.aborts (l.items.drop n) l.promises
      have q := p.withPromises aborts.nextHandle aborts.results (List.Subset.refl _) fun it res h =>
          by
        refine (aborts.new _ h).imp_right ?_
        rintro ⟨e, he, it', handle, stored, rfl⟩
        -- what is aborted is not of the kind that is kept
        exact ⟨e.op, p.owner (p.items e (List.mem_of_mem_drop he)) handle,
          fun k => absurd ⟨it, handle, stored⟩ (keeps.cut l n ok e he k)⟩
      exact { q with items := fun e h => q.items e (List.mem_of_mem_take h) }
  | commit i _ _ =>
      refine { p with committed := fun op h => ?_ }
      rcases List.mem_append.mp h with h | h
      · exact p.committed op h
      · obtain ⟨j, _, h⟩ := List.mem_filterMap.mp h
        split at h
        · obtain ⟨e, he, rfl⟩ := Option.map_eq_some_iff.mp h
          exact p.items e (List.mem_of_getElem? he)
        · cases h
  | execute op rest ok next_ allowed =>
      have owns : l.Owns op := p.committed op (next_ ▸ List.mem_cons_self)
      have q := p.withPromises (RaftOp.resolve_nextHandle op l.promises (op.run l.db ok).2)
        RaftOp.resolve_results (List.subset_append_left l.executions [(op, (op.run l.db ok).2)])
        fun it res h => by
          refine (RaftOp.mem_resolve_results h).imp_right ?_
          rintro ⟨it', handle, stored, ⟨⟩⟩
          exact ⟨op, p.owner owns handle, fun k => ⟨by simp,
            keeps.execute l op ok allowed k ⟨it, handle, stored⟩⟩⟩
      exact { q with committed := fun op' h => q.committed op' (next_ ▸ List.mem_cons_of_mem _ h) }
  | submit command => exact p.submit command
  | start call none =>
      refine p.withCalls (by simp [submissions, none]) fun x h => ?_
      rcases List.mem_append.mp h with h | h
      · exact p.answers x h
      · obtain rfl := List.mem_singleton.mp h
        cases x with
        | returned op it ret => cases none
        | _ => exact True.intro
  | advance j call call' hj same answers =>
      refine p.withCalls (List.filterMap_set_of_eq hj same) fun x h => ?_
      rcases List.mem_or_eq_of_mem_set h with h | rfl
      · exact p.answers x h
      · exact answers
  | discard it =>
      exact p.withPromises rfl (List.Subset.refl _) (List.Subset.refl _) fun _ _ => Or.inl
  | send threads handlers _ => exact { p with }

theorem Promised.steps (p : Promised kept good l) (keeps : D.Keeps kept good)
    (st : Steps D l l') : Promised kept good l' := by
  induction st with
  | refl => exact p
  | tail _ last ih => exact ih.step keeps last

/-- A call that has been accepted and has returned tells the result of executing its
operation, when that is of the kind that is kept. -/
theorem Promised.answered {op : RaftOp} {it : Handle} {ret : Ret} (p : Promised kept good l)
    (k : kept op.command) (returned : .returned op it ret ∈ l.calls)
    (accepted : ret.errorCode ≠ .notLeader) :
    ∃ res, (op, res) ∈ l.executions ∧ good res ∧
      Replica.answer op.command res = some ret ∧ op.promiseHandle = some it := by
  obtain ⟨res, mem, answer⟩ := (p.answers _ returned).resolve_left accepted
  obtain ⟨op', mem', sound⟩ := p.results it res mem
  have here : (op, it) ∈ l.submissions := List.mem_filterMap.mpr ⟨_, returned, rfl⟩
  obtain rfl := p.unique op op' it here mem'
  exact ⟨res, (sound k).1, (sound k).2, answer, p.handle op it here⟩

end Ledger
end OhMyDb
