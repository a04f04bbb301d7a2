import OhMyDb.Lib.Execution

/-!
`TimeTravelSignal`, and the two sides of `raftOut_`: the producers, which push and
signal with `raftOutMutex_` taken, and the loop of `executerImpl`. Both calls of the
signal hold `miniLock` from their first line on, so each of them is one step; a thread
that waits gives the lock back inside `cvar.wait` and takes it again to return.
-/

namespace OhMyDb

structure TimeTravelSignal where
  noBlock : Bool := false
  waiting : Bool := false

namespace TimeTravelSignal

/-- With it, whether `cvar.notify_all` is called. -/
def signal (t : TimeTravelSignal) : TimeTravelSignal × Bool :=
  if t.noBlock then (t, false)
  else if t.waiting then ({ t with waiting := false }, true)
  else ({ t with noBlock := true }, false)

/-- With it, whether the caller goes into `cvar.wait`. -/
def wait (t : TimeTravelSignal) : TimeTravelSignal × Bool :=
  -- "Attempt to read TimeTravelSignal while already waiting"
  if t.waiting then (t, false)
  else if t.noBlock then ({ t with noBlock := false }, false)
  else ({ t with waiting := true }, true)

end TimeTravelSignal

/-- Where the thread of `executerImpl` is. -/
inductive ExecuterPoint where
  /-- About to call `wait`. -/
  | atWait
  /-- Inside `cvar.wait`, where a notification would find it. -/
  | blocked
  /-- Out of `cvar.wait`, before `miniLock` is taken again. -/
  | woken
  /-- Back from `wait`, before the swap. -/
  | atSwap
  | executing
  deriving DecidableEq

/-- `raftOutMutex_`, and where the producer that has it is: every producer signals
once, after its last push. -/
inductive OutMutex (P : Type) where
  | free
  | pushing (p : P)
  | signalled (p : P)
  deriving DecidableEq

/-- Producers of type `P` hand operations of type `T` to the executer. -/
structure Handover (P T : Type) where
  moreExecJobsReady : TimeTravelSignal := {}
  raftOutMutex : OutMutex P := .free
  raftOut : List T := []
  /-- What the loop over `execIn_` still has before it. -/
  execIn : List T := []
  executer : ExecuterPoint := .atWait
  executed : List T := []

inductive HandoverAction (P T : Type) where
  | lock (p : P)
  | push (p : P) (op : T)
  | signal (p : P)
  | unlock (p : P)
  | wait
  /-- `cvar.wait` unblocks with no notification. -/
  | spurious
  | relock
  | swap
  | execute
  | clear

namespace Handover
variable {P T : Type}

/-- `notify_all` takes the executer out of `cvar.wait`, if it is there. -/
def notifyAll (s : Handover P T) : Handover P T :=
  if s.executer = .blocked then { s with executer := .woken } else s

@[simp] theorem notifyAll_moreExecJobsReady (s : Handover P T) :
    s.notifyAll.moreExecJobsReady = s.moreExecJobsReady := by
  unfold notifyAll
  split <;> rfl

@[simp] theorem notifyAll_raftOut (s : Handover P T) : s.notifyAll.raftOut = s.raftOut := by
  unfold notifyAll
  split <;> rfl

@[simp] theorem notifyAll_execIn (s : Handover P T) : s.notifyAll.execIn = s.execIn := by
  unfold notifyAll
  split <;> rfl

@[simp] theorem notifyAll_executed (s : Handover P T) : s.notifyAll.executed = s.executed := by
  unfold notifyAll
  split <;> rfl

def step [DecidableEq P] (s : Handover P T) : HandoverAction P T → Option (Handover P T)
  | .lock p =>
      if s.raftOutMutex = .free then some { s with raftOutMutex := .pushing p } else none
  | .push p op =>
      if s.raftOutMutex = .pushing p then some { s with raftOut := s.raftOut ++ [op] } else none
  | .signal p =>
      if s.raftOutMutex = .pushing p then
        let (t, notify) := s.moreExecJobsReady.signal
        let s := { s with moreExecJobsReady := t, raftOutMutex := .signalled p }
        some (if notify then s.notifyAll else s)
      else none
  | .unlock p =>
      if s.raftOutMutex = .signalled p then some { s with raftOutMutex := .free } else none
  | .wait =>
      if s.executer = .atWait then
        let (t, blocks) := s.moreExecJobsReady.wait
        some { s with moreExecJobsReady := t, executer := if blocks then .blocked else .atSwap }
      else none
  | .spurious =>
      if s.executer = .blocked then some { s with executer := .woken } else none
  | .relock =>
      if s.executer = .woken then some { s with executer := .atSwap } else none
  | .swap =>
      if s.executer = .atSwap ∧ s.raftOutMutex = .free then
        some { s with execIn := s.raftOut, raftOut := s.execIn, executer := .executing }
      else none
  | .execute =>
      match s.executer, s.execIn with
      | .executing, op :: rest => some { s with execIn := rest, executed := s.executed ++ [op] }
      | _, _ => none
  | .clear =>
      if s.executer = .executing ∧ s.execIn = [] then some { s with executer := .atWait } else none

end Handover
end OhMyDb
