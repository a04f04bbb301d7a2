import OhMyDb.Db.Promises
import OhMyDb.Db.Refinement
import OhMyDb.Model.Client
import OhMyDb.Raft.Safety

/-!
What `ReplicatedDB::put` promises when it returns true. The value `ReplicaManager::put`
returns with `OK` tells a PUT that was executed from one that was aborted or that
LevelDB refused, but the response has no field for it: the client takes every `OK`
for success.
-/

namespace OhMyDb
open Execution

/-- What a GET or PUT that has returned was asked, and its error code. -/
def Call.verdict : Call → Option (Command × DbErrorCode)
  | .returned op _ ret => some (op.command, ret.errorCode)
  | _ => none

theorem Call.verdict_eq {call : Call} {command : Command} {code : DbErrorCode}
    (h : call.verdict = some (command, code)) : ∃ op it ret, call = .returned op it ret ∧
      op.command = command ∧ ret.errorCode = code := by
  cases call with
  | returned op it ret =>
      cases h
      exact ⟨op, it, ret, rfl, rfl, rfl⟩
  | _ => cases h

def Command.isPut : Command → Bool
  | .put _ _ => true
  | _ => false

namespace Ledger

/-- No PUT a call waits on is cut off the log, and LevelDB accepts it. -/
def Discipline.writes : Discipline where
  cut l n := ∀ e ∈ l.items.drop n, e.op.command.isPut = true → ¬ l.Awaits e.op
  execute l op ok := op.command.isPut = true → l.Awaits op → ok = true

instance (l : Ledger) (n : ℕ) : Decidable (Discipline.writes.cut l n) :=
  inferInstanceAs (Decidable (∀ e ∈ l.items.drop n, _ → _))

instance (l : Ledger) (op : RaftOp) (ok : Bool) : Decidable (Discipline.writes.execute l op ok) :=
  inferInstanceAs (Decidable (_ → _ → _))

end Ledger

namespace ReplicatedDB

end ReplicatedDB

namespace Cluster
variable {c : Cluster}

/-- Server 1 is elected, replicates a PUT to server 3, executes it and answers. -/
def answeredPut : List Action :=
  plainElection ++ submitPut 1 5 7 ++
    [.appendSend 1 0 0, .appendDeliver 1 0 20, .appendReturn 1 0 ⟨1, true⟩ 21,
      .executer 1 true, .executer 1 true, .callStep 1 0 22]

end Cluster
end OhMyDb
