import OhMyDb.Model.TimeTravelSignal
import OhMyDb.Model.Replica

/-!
The executer and the signal it waits for. A thread that `cvar.wait` lets go without a
notification leaves `waiting` set, and the next signal is spent on it although it does
not wait. As long as no signal is spent in that way, the executer is not left asleep
over operations that have been handed to it.
-/

namespace OhMyDb
open Execution

namespace Handover
variable {P T : Type}

/-- The executer is inside `cvar.wait`, where no notification has reached it and none is
to come from a producer that has pushed and is about to signal. -/
def Lost (s : Handover P T) : Prop :=
  s.executer = .blocked ∧ s.raftOut ≠ [] ∧ ∀ p, s.raftOutMutex ≠ .pushing p

/-- The executer goes through `wait` again before its next swap. -/
def PastSwap (s : Handover P T) : Prop :=
  s.executer = .executing ∨ s.executer = .atWait

instance (s : Handover P T) : Decidable s.PastSwap :=
  inferInstanceAs (Decidable (_ ∨ _))

/-- No signal for queued operations finds `waiting` still set when the executer has
left `cvar.wait` and gone past its swap. -/
def SignalHeard (s : Handover P T) : HandoverAction P T → Prop
  | .signal _ => s.PastSwap → s.raftOut ≠ [] → s.moreExecJobsReady.waiting = false
  | _ => True

instance (s : Handover P T) [DecidableEq T] (a : HandoverAction P T) :
    Decidable (s.SignalHeard a) :=
  match a with
  | .signal _ => inferInstanceAs (Decidable (_ → _ → _ = _))
  | .lock _ | .push _ _ | .unlock _ | .wait | .spurious | .relock | .swap | .execute | .clear =>
      inferInstanceAs (Decidable True)

/-- No thread returns from `cvar.wait` without a notification. -/
def NotSpurious (_ : Handover P T) : HandoverAction P T → Prop
  | .spurious => False
  | _ => True

/-- The steps, with what each finds. -/
inductive Passes (s : Handover P T) : HandoverAction P T → Handover P T → Prop where
  | lock (p : P) : s.raftOutMutex = .free →
      Passes s (.lock p) { s with raftOutMutex := .pushing p }
  | push (p : P) (op : T) : s.raftOutMutex = .pushing p →
      Passes s (.push p op) { s with raftOut := s.raftOut ++ [op] }
  | already (p : P) : s.raftOutMutex = .pushing p → s.moreExecJobsReady.noBlock = true →
      Passes s (.signal p) { s with raftOutMutex := .signalled p }
  | notify (p : P) : s.raftOutMutex = .pushing p → s.moreExecJobsReady.noBlock = false →
      s.moreExecJobsReady.waiting = true →
      Passes s (.signal p)
        { s with moreExecJobsReady := ⟨false, false⟩, raftOutMutex := .signalled p }.notifyAll
  | register (p : P) : s.raftOutMutex = .pushing p → s.moreExecJobsReady.waiting = false →
      Passes s (.signal p)
        { s with moreExecJobsReady := ⟨true, false⟩, raftOutMutex := .signalled p }
  | unlock (p : P) : s.raftOutMutex = .signalled p →
      Passes s (.unlock p) { s with raftOutMutex := .free }
  | stillWaiting : s.executer = .atWait → s.moreExecJobsReady.waiting = true →
      Passes s .wait { s with executer := .atSwap }
  | consume : s.executer = .atWait → s.moreExecJobsReady.noBlock = true →
      s.moreExecJobsReady.waiting = false →
      Passes s .wait { s with moreExecJobsReady := ⟨false, false⟩, executer := .atSwap }
  | block : s.executer = .atWait → s.moreExecJobsReady.noBlock = false →
      Passes s .wait { s with moreExecJobsReady := ⟨false, true⟩, executer := .blocked }
  | spurious : s.executer = .blocked → Passes s .spurious { s with executer := .woken }
  | relock : s.executer = .woken → Passes s .relock { s with executer := .atSwap }
  | swap : s.executer = .atSwap → s.raftOutMutex = .free →
      Passes s .swap { s with execIn := s.raftOut, raftOut := s.execIn, executer := .executing }
  | execute (op : T) (rest : List T) : s.executer = .executing → s.execIn = op :: rest →
      Passes s .execute { s with execIn := rest, executed := s.executed ++ [op] }
  | clear : s.executer = .executing → s.execIn = [] →
      Passes s .clear { s with executer := .atWait }

/-- What links the flags, the queue and the place of the executer. -/
structure Heard (s : Handover P T) : Prop where
  listens : s.executer = .blocked →
    s.moreExecJobsReady.waiting = true ∧ s.moreExecJobsReady.noBlock = false
  told : s.raftOut ≠ [] → (∀ p, s.raftOutMutex ≠ .pushing p) →
    s.executer ≠ .blocked ∧ (s.PastSwap → s.moreExecJobsReady.noBlock = true)

theorem Heard.passes {s s' : Handover P T} {a : HandoverAction P T} (heard : s.Heard)
    (emptied : s.executer ≠ .executing → s.execIn = [])
    (ok : s.SignalHeard a) (h : s.Passes a s') : s'.Heard := by
  cases h with
  | lock p free => exact ⟨heard.listens, fun _ silent => absurd rfl (silent p)⟩
  | push p op pushing => exact ⟨heard.listens, fun _ silent => absurd pushing (silent p)⟩
  | already p pushing noBlock =>
      have awake : s.executer ≠ .blocked := fun blocked => by
        simp [(heard.listens blocked).2] at noBlock
      exact ⟨fun blocked => absurd blocked awake, fun _ _ => ⟨awake, fun _ => noBlock⟩⟩
  | notify p pushing noBlock waiting =>
      by_cases blocked : s.executer = .blocked
      · rw [notifyAll, if_pos blocked]
        exact ⟨by simp, fun _ _ => ⟨by simp, by simp [PastSwap]⟩⟩
      · rw [notifyAll, if_neg blocked]
        refine ⟨fun e => absurd e blocked, fun queued _ => ⟨blocked, fun past => ?_⟩⟩
        have : s.moreExecJobsReady.waiting = false := ok past queued
        simp [this] at waiting
  | register p pushing waiting =>
      have awake : s.executer ≠ .blocked := fun blocked => by
        simp [(heard.listens blocked).1] at waiting
      exact ⟨fun blocked => absurd blocked awake, fun _ _ => ⟨awake, fun _ => rfl⟩⟩
  | unlock p signalled =>
      exact ⟨heard.listens, fun queued _ => heard.told queued fun q e => by simp [signalled] at e⟩
  | stillWaiting atWait waiting => exact ⟨by simp, fun _ _ => ⟨by simp, by simp [PastSwap]⟩⟩
  | consume atWait noBlock waiting => exact ⟨by simp, fun _ _ => ⟨by simp, by simp [PastSwap]⟩⟩
  | block atWait noBlock =>
      refine ⟨fun _ => ⟨rfl, rfl⟩, fun queued silent => ?_⟩
      have := (heard.told queued silent).2 (.inr atWait)
      simp [this] at noBlock
  | spurious blocked => exact ⟨by simp, fun _ _ => ⟨by simp, by simp [PastSwap]⟩⟩
  | relock woken => exact ⟨by simp, fun _ _ => ⟨by simp, by simp [PastSwap]⟩⟩
  | swap atSwap free =>
      refine ⟨by simp, fun queued _ => absurd (emptied ?_) queued⟩
      simp [atSwap]
  | execute op rest executing execIn =>
      exact ⟨heard.listens, heard.told⟩
  | clear executing empty =>
      exact ⟨by simp, fun queued silent =>
        ⟨by simp, fun _ => (heard.told queued silent).2 (.inl executing)⟩⟩

/-- `execIn_` is empty except while it is executed. -/
theorem emptied_passes {s s' : Handover P T} {a : HandoverAction P T}
    (emptied : s.executer ≠ .executing → s.execIn = []) (h : s.Passes a s') :
    s'.executer ≠ .executing → s'.execIn = [] := by
  cases h with
  | notify p pushing noBlock waiting =>
      by_cases blocked : s.executer = .blocked
      · rw [notifyAll, if_pos blocked]
        exact fun _ => emptied (by simp [blocked])
      · rw [notifyAll, if_neg blocked]
        exact emptied
  | swap _ _ => exact fun h => absurd rfl h
  | execute op rest executing _ => exact fun h => absurd executing h
  | clear _ empty => exact fun _ => empty
  | lock | push | already | register | unlock => exact emptied
  | stillWaiting point _ | consume point _ _ | block point _ | spurious point | relock point =>
      exact fun _ => emptied (by simp [point])

/-- What has been pushed, oldest first. -/
def pushed (h : List (Handover P T × HandoverAction P T)) : List T :=
  h.reverse.filterMap fun p =>
    match p.2 with
    | .push _ op => some op
    | _ => none

theorem pushed_cons (h : List (Handover P T × HandoverAction P T)) (s : Handover P T)
    (a : HandoverAction P T) :
    pushed ((s, a) :: h) = match a with
      | .push _ op => pushed h ++ [op]
      | _ => pushed h := by
  cases a <;> simp [pushed]

section
variable [DecidableEq P]

theorem passes_of_step {s s' : Handover P T} {a : HandoverAction P T}
    (h : s.step a = some s') : s.Passes a s' := by
  obtain ⟨⟨noBlock, waiting⟩, mutex, raftOut, execIn, executer, executed⟩ := s
  cases a with
  | lock p =>
      obtain ⟨free, e⟩ := Option.ite_none_right_eq_some.mp h
      cases e
      exact .lock p free
  | push p op =>
      obtain ⟨pushing, e⟩ := Option.ite_none_right_eq_some.mp h
      cases e
      exact .push p op pushing
  | signal p =>
      obtain ⟨pushing, e⟩ := Option.ite_none_right_eq_some.mp h
      cases e
      cases noBlock with
      | true => exact .already p pushing rfl
      | false =>
          cases waiting with
          | true => exact .notify p pushing rfl rfl
          | false => exact .register p pushing rfl
  | unlock p =>
      obtain ⟨signalled, e⟩ := Option.ite_none_right_eq_some.mp h
      cases e
      exact .unlock p signalled
  | wait =>
      obtain ⟨atWait, e⟩ := Option.ite_none_right_eq_some.mp h
      cases e
      cases waiting with
      | true => exact .stillWaiting atWait rfl
      | false =>
          cases noBlock with
          | true => exact .consume atWait rfl rfl
          | false => exact .block atWait rfl
  | spurious =>
      obtain ⟨blocked, e⟩ := Option.ite_none_right_eq_some.mp h
      cases e
      exact .spurious blocked
  | relock =>
      obtain ⟨woken, e⟩ := Option.ite_none_right_eq_some.mp h
      cases e
      exact .relock woken
  | swap =>
      obtain ⟨⟨atSwap, free⟩, e⟩ := Option.ite_none_right_eq_some.mp h
      cases e
      exact .swap atSwap free
  | execute =>
      cases executer <;> cases execIn <;> simp only [step, reduceCtorEq] at h
      cases h
      exact .execute _ _ rfl rfl
  | clear =>
      obtain ⟨⟨executing, empty⟩, e⟩ := Option.ite_none_right_eq_some.mp h
      cases e
      exact .clear executing empty

theorem emptied {h : List (Handover P T × HandoverAction P T)} {s : Handover P T}
    (run : Run step {} h s) : s.executer ≠ .executing → s.execIn = [] :=
  run.always (fun _ => rfl) fun _ _ _ hs step => emptied_passes hs (passes_of_step step)

theorem heard {h : List (Handover P T × HandoverAction P T)} {s : Handover P T}
    (run : Run step {} h s) (meets : Meets SignalHeard h) : s.Heard := by
  induction run with
  | start => exact ⟨by simp, fun queued => absurd rfl queued⟩
  | next run hs ih =>
      exact (ih meets.tail).passes (emptied run) meets.head (passes_of_step hs)

/-- No run in which every signal is heard leaves the executer asleep over its queue. -/
theorem noLostWakeup {h : List (Handover P T × HandoverAction P T)} {s : Handover P T}
    (run : Run step {} h s) (meets : Meets SignalHeard h) : ¬ s.Lost :=
  fun ⟨blocked, queued, silent⟩ => ((heard run meets).told queued silent).1 blocked

/-- The executer wakes with no notification, but sees the first operation before it waits
again. -/
def heardLate : List (HandoverAction Nat Nat) :=
  [.wait, .spurious, .lock 0, .push 0 5, .signal 0, .unlock 0, .relock, .swap, .execute, .clear]

theorem noLostWakeup_heardLate : ¬ (outcome step {} heardLate).2.Lost :=
  noLostWakeup (outcome_run step {} heardLate) (by decide)

/-- The executer wakes with no notification and swaps; a producer's signal finds
`waiting` set, notifies no one, and the executer waits for good. -/
def wakesTooEarly : List (HandoverAction Nat Nat) :=
  [.wait, .spurious, .relock, .swap, .lock 0, .push 0 5, .signal 0, .unlock 0, .clear, .wait]

theorem not_noLostWakeup : ¬ ∀ (P T : Type) (_ : DecidableEq P)
    (h : List (Handover P T × HandoverAction P T)) (s : Handover P T),
    Run step {} h s → ¬ s.Lost := by
  intro never
  have free : (outcome step {} wakesTooEarly).2.raftOutMutex = .free := by decide
  refine never Nat Nat _ _ _ (outcome_run step {} wakesTooEarly) ⟨by decide, by decide, ?_⟩
  intro p
  simp [free]

/-- Without spurious wakeups every signal is heard. -/
theorem signalHeard_of_notSpurious {h : List (Handover P T × HandoverAction P T)}
    {s : Handover P T} (run : Run step {} h s) (meets : Meets NotSpurious h) :
    Meets SignalHeard h ∧ (s.moreExecJobsReady.waiting = true → s.executer = .blocked) := by
  induction run with
  | start => exact ⟨by simp [Meets], by simp⟩
  | @next h s s' a run hs ih =>
      obtain ⟨before, blocked⟩ := ih meets.tail
      have hears : s.SignalHeard a := by
        cases a with
        | signal p =>
            refine fun past _ => Bool.eq_false_iff.mpr fun waiting => ?_
            simp [PastSwap, blocked waiting] at past
        | _ => trivial
      refine ⟨Meets.cons.mpr ⟨hears, before⟩, ?_⟩
      have ok : s.NotSpurious a := meets.head
      cases passes_of_step hs with
      | spurious _ => exact ok.elim
      | notify p pushing noBlock waiting =>
          rw [notifyAll, if_pos (blocked waiting)]
          simp
      | block => exact fun _ => rfl
      | lock | push | already | unlock => exact blocked
      | execute op rest executing _ | clear executing _ =>
          exact fun waiting => by simp [blocked waiting] at executing
      | swap point _ | relock point => exact fun waiting => by simp [blocked waiting] at point
      | stillWaiting point waiting => simp [blocked waiting] at point
      | register | consume => simp

/-- A registered signal and a waiting receiver exclude each other. -/
theorem flags_apart {h : List (Handover P T × HandoverAction P T)} {s : Handover P T}
    (run : Run step {} h s) :
    s.moreExecJobsReady.noBlock = true → s.moreExecJobsReady.waiting = false := by
  refine run.always (I := fun s => s.moreExecJobsReady.noBlock = true →
    s.moreExecJobsReady.waiting = false) (fun _ => rfl) fun s a s' apart step => ?_
  cases passes_of_step step with
  | notify => simp
  | register => exact fun _ => rfl
  | consume | block => simp
  | lock | push | already | unlock | stillWaiting | spurious | relock | swap | execute | clear =>
      exact apart

/-- An executer left alone gets to its next `wait`. -/
theorem finishes {s : Handover P T} (executing : s.executer = .executing) :
    ∃ h, Run step s h
      { s with execIn := [], executer := .atWait, executed := s.executed ++ s.execIn } := by
  induction e : s.execIn generalizing s with
  | nil =>
      have last : s.step .clear = some { s with executer := .atWait } := if_pos ⟨executing, e⟩
      exact ⟨_, by simpa [e] using Run.start.next last⟩
  | cons op rest ih =>
      have first : s.step .execute =
          some { s with execIn := rest, executed := s.executed ++ [op] } := by
        simp [step, executing, e]
      obtain ⟨h, run⟩ :=
        ih (s := { s with execIn := rest, executed := s.executed ++ [op] }) executing rfl
      exact ⟨_, by simpa [e] using (Run.start.next first).trans run⟩

/-- A signal that is not heard can always be followed by the loss: nothing less than
`SignalHeard` keeps the executer from it. -/
theorem lost_of_unheard {h : List (Handover P T × HandoverAction P T)} {s s' : Handover P T}
    {a : HandoverAction P T} (run : Run step {} h s) (hs : s.step a = some s')
    (unheard : ¬ s.SignalHeard a) : ∃ h' t, Run step s' h' t ∧ t.Lost := by
  cases a with
  | signal p =>
      obtain ⟨past, unheard⟩ := Classical.not_imp.mp unheard
      obtain ⟨queued, waiting⟩ := Classical.not_imp.mp unheard
      rw [Bool.not_eq_false] at waiting
      have awake : s.executer ≠ .blocked := by
        rcases past with e | e <;> simp [e]
      have unlocked : ∃ u, s'.step (.unlock p) = some u ∧ u = { s with
          moreExecJobsReady := ⟨false, false⟩, raftOutMutex := .free } := by
        cases passes_of_step hs with
        | already _ pushing noBlock => simp [flags_apart run noBlock] at waiting
        | register _ pushing idle => simp [idle] at waiting
        | notify _ pushing noBlock _ =>
            rw [notifyAll, if_neg awake]
            exact ⟨_, if_pos rfl, rfl⟩
      obtain ⟨u, hu, e⟩ := unlocked
      have toWait : ∃ h t, Run step u h t ∧ t.executer = .atWait ∧ t.raftOut = s.raftOut ∧
          t.raftOutMutex = .free ∧ t.moreExecJobsReady = ⟨false, false⟩ := by
        rcases past with executing | atWait
        · have executing : u.executer = .executing := by simpa [e] using executing
          obtain ⟨h, run⟩ := finishes executing
          exact ⟨h, _, run, by simp [e]⟩
        · exact ⟨[], u, .start, by simp [e, atWait]⟩
      obtain ⟨h', t, run', atWait, kept, free, flags⟩ := toWait
      have blocks : t.step .wait =
          some { t with moreExecJobsReady := ⟨false, true⟩, executer := .blocked } := by
        simp [step, atWait, flags, TimeTravelSignal.wait]
      refine ⟨_, _, (Run.start.next hu).trans (run'.next blocks), rfl, by simpa [kept], ?_⟩
      simp [free]
  | _ => exact absurd trivial unheard

/-- Whatever the signals do, nothing is lost from the queues, doubled or overtaken. -/
theorem inOrder {h : List (Handover P T × HandoverAction P T)} {s : Handover P T}
    (run : Run step {} h s) : pushed h = s.executed ++ s.execIn ++ s.raftOut := by
  induction run with
  | start => rfl
  | @next h s s' a run hs ih =>
      rw [pushed_cons]
      cases passes_of_step hs with
      | push p op _ => simp [ih]
      | swap point _ => simp [ih, emptied run (by simp [point])]
      | execute op rest _ e => simp [ih, e]
      | notify => simpa using ih
      | lock | already | register | unlock | stillWaiting | consume | block | spurious | relock
        | clear => exact ih

end

/-- The loop moves the two queues as the replica's `executer` does, and a producer as
`queueCommitted` does; the other steps leave them alone. -/
theorem Passes.queues {s s' : Handover P RaftOp} {a : HandoverAction P RaftOp}
    (emptied : s.executer ≠ .executing → s.execIn = []) (h : s.Passes a s') {r : Replica}
    (out : r.raftOut = s.raftOut) (taken : r.execIn = s.execIn) (ok : Bool) :
    match a with
    | .push _ op => s'.raftOut = r.raftOut ++ [op] ∧ s'.execIn = r.execIn
    | .swap | .execute =>
        s'.raftOut = (r.executer ok).raftOut ∧ s'.execIn = (r.executer ok).execIn
    | _ => s'.raftOut = r.raftOut ∧ s'.execIn = r.execIn := by
  cases h with
  | push p op _ => simp [out, taken]
  | swap point _ =>
      have empty : s.execIn = [] := emptied (by simp [point])
      simp [Replica.executer, taken, empty, out]
  | execute op rest _ e => simp [Replica.executer, taken, e, out]
  | lock | already | notify | register | unlock | stillWaiting | consume | block | spurious
    | relock | clear => simp [out, taken]

end Handover
end OhMyDb
