import OhMyDb.Raft.Changes

/-!
The part of a replica that serves its clients: the calls and their promises, the
way an operation takes from the queues through the log to the executer, and the
messages that carry operations to other replicas. Elections and the bookkeeping of
replication are left out of it; what is left moves in a few ways only.
-/

namespace OhMyDb
open Relation (ReflTransGen)

def Event.execution : Event → Option (RaftOp × Res)
  | .executed op res => some (op, res)
  | _ => none

structure Ledger where
  calls : List Call
  promises : PromiseStore
  queued : List RaftOp
  appending : List RaftOp
  items : List LogEntry
  commitIndex : Int
  lastApplied : Int
  committed : List RaftOp
  db : Store
  executions : List (RaftOp × Res)
  threads : List AppendThread
  handlers : List AppendHandler

namespace Ledger

def submissions (l : Ledger) : List (RaftOp × Handle) :=
  l.calls.filterMap Call.submission

/-- No promise is attached, or it is the one a call of this replica waits on. -/
def Owns (l : Ledger) (op : RaftOp) : Prop :=
  op.promiseHandle = none ∨ ∃ it, (op, it) ∈ l.submissions

/-- The promise is still to be completed. -/
def Awaits (l : Ledger) (op : RaftOp) : Prop :=
  ∃ it ∈ op.promiseHandle, it ∈ l.promises.store

instance (l : Ledger) (op : RaftOp) : Decidable (l.Awaits op) :=
  match h : op.promiseHandle with
  | none => .isFalse fun ⟨it, handle, _⟩ => by simp [h] at handle
  | some it =>
      if stored : it ∈ l.promises.store then .isTrue ⟨it, h, stored⟩
      else .isFalse fun ⟨it', handle, mem⟩ => stored (by
        rw [h] at handle
        cases handle
        exact mem)

/-- A call that was accepted returns what its promise has received. -/
def Answers (l : Ledger) : Call → Prop
  | .returned op it ret => ret.errorCode = .notLeader ∨
      ∃ res, (it, res) ∈ l.promises.results ∧ Replica.answer op.command res = some ret
  | _ => True

/-- The operations at `lastApplied + 1 .. i`. -/
def newly (l : Ledger) (i : Int) : List RaftOp :=
  (List.range (i - l.lastApplied).toNat).filterMap fun (j : Nat) =>
    if 0 ≤ l.lastApplied + 1 + j then
      l.items[(l.lastApplied + 1 + j).toNat]?.map (·.op)
    else none

/-- No operation on its way to another replica has a promise. -/
structure Bare (l : Ledger) : Prop where
  threads : ∀ t ∈ l.threads, ∀ args ∈ t.args, ∀ e ∈ args.entries, e.op.promiseHandle = none
  handlers : ∀ h ∈ l.handlers, ∀ e ∈ h.rest, e.op.promiseHandle = none

/-- Nothing has been asked yet. -/
def start : Ledger where
  calls := []
  promises := {}
  queued := []
  appending := []
  items := []
  commitIndex := -1
  lastApplied := -1
  committed := []
  db := fun _ => none
  executions := []
  threads := []
  handlers := []

/-- What a run may be restricted to: where the log is cut, and what LevelDB answers. -/
structure Discipline where
  cut : Ledger → ℕ → Prop
  execute : Ledger → RaftOp → Bool → Prop

inductive Step (D : Discipline) (l : Ledger) : Ledger → Prop where
  /-- Operations move along the queues to the end of the log. -/
  | move (queued appending : List RaftOp) (es : List LogEntry) :
      (∀ op ∈ queued, op ∈ l.queued ∨ l.Owns op) →
      (∀ op ∈ appending, op ∈ l.queued ∨ op ∈ l.appending) →
      (∀ e ∈ es, e.op ∈ l.queued ∨ e.op ∈ l.appending ∨ l.Owns e.op) →
      Step D l { l with queued := queued, appending := appending, items := l.items ++ es }
  | cut (n : ℕ) : D.cut l n →
      Step D l { l with
        items := l.items.take n
        promises := (l.items.drop n).foldl (fun ps e => e.op.abort ps) l.promises }
  | commit (i : Int) : (l.commitIndex < i ∨ i = l.items.length - 1) → i < l.items.length →
      Step D l { l with
        commitIndex := i, lastApplied := i, committed := l.committed ++ l.newly i }
  | execute (op : RaftOp) (rest : List RaftOp) (ok : Bool) :
      l.committed = op :: rest → D.execute l op ok →
      Step D l { l with
        committed := rest
        db := (op.run l.db ok).1
        promises := op.resolve l.promises (op.run l.db ok).2
        executions := l.executions ++ [(op, (op.run l.db ok).2)] }
  | submit (command : Command) :
      Step D l { l with
        promises := l.promises.insert.1
        calls := l.calls ++ [.submitting
          { command := command, promiseHandle := some l.promises.insert.2 }
          l.promises.insert.2] }
  | start (call : Call) : call.submission = none →
      Step D l { l with calls := l.calls ++ [call] }
  | advance (j : ℕ) (call call' : Call) : l.calls[j]? = some call →
      call'.submission = call.submission → l.Answers call' →
      Step D l { l with calls := l.calls.set j call' }
  | discard (it : Handle) : Step D l { l with promises := l.promises.getAndRemove it }
  | send (threads : List AppendThread) (handlers : List AppendHandler) :
      Bare { l with threads := threads, handlers := handlers } →
      Step D l { l with threads := threads, handlers := handlers }

abbrev Steps (D : Discipline) : Ledger → Ledger → Prop := ReflTransGen (Step D)

variable {D : Discipline} {l l' : Ledger}

theorem Bare.step (b : l.Bare) (st : Step D l l') : l'.Bare := by
  cases st with
  | send threads handlers bare => exact bare
  | _ => exact ⟨b.threads, b.handlers⟩

theorem Bare.steps (b : l.Bare) (st : Steps D l l') : l'.Bare := by
  induction st with
  | refl => exact b
  | tail _ last ih => exact ih.step last

theorem Bare.modify (b : l.Bare) (k : ℕ) {f : AppendThread → AppendThread}
    (same : ∀ t, (f t).args = t.args) :
    Bare { l with threads := l.threads.modify k f } := by
  refine ⟨fun t ht => ?_, b.handlers⟩
  rcases List.mem_or_eq_of_mem_modify ht with h | ⟨u, hu, rfl⟩
  · exact b.threads t h
  · rw [same]
    exact b.threads u (List.mem_of_getElem? hu)

end Ledger

namespace Replica

/-- What has been executed, oldest first. -/
def executions (r : Replica) : List (RaftOp × Res) :=
  (r.hist.filterMap Event.execution).reverse

def ledger (r : Replica) : Ledger where
  calls := r.calls
  promises := r.promises
  queued := r.dispatchOut ++ r.raftIn
  appending := r.raftThread.rest
  items := r.state.logs.items
  commitIndex := r.state.commitIndex
  lastApplied := r.state.lastApplied
  committed := r.execIn ++ r.raftOut
  db := r.db
  executions := r.executions
  threads := r.appendThreads
  handlers := r.handlers

end Replica
end OhMyDb
