import OhMyDb.Model.Decimal
import OhMyDb.Model.Operation
import OhMyDb.Lib.Execution

/-!
The templates of `LevelDBProxy.H`, `LevelDBReal` over the calls of `leveldb::DB` it makes, and
the processes that execute one log on the same database: `LastApplied` is -1 in each new
process, so each begins with the first entry again.
-/

namespace OhMyDb

/-- What `Get` finds, if its status is ok, and what `Put` leaves, with whether its
status is ok. -/
structure LevelDB (D : Type) where
  get : D → String → Option String
  put : D → String → String → D × Bool

/-- What LevelDB promises of a database that can be written and read. -/
structure LevelDB.Intact {D : Type} (L : LevelDB D) : Prop where
  put_ok : ∀ db key val, (L.put db key val).2 = true
  get_put : ∀ db key val key',
    L.get (L.put db key val).1 key' = if key' = key then some val else L.get db key'

/-- What `LevelDBReal` uses of its integral types: `std::to_string`, and `std::stoi` converted
to the type. -/
class Integral (V : Type) where
  numeral : V → String
  stoi : String → Except StoiError V
  stoi_numeral : ∀ v, stoi (numeral v) = .ok v
  numeral_isEmpty : ∀ v, (numeral v).isEmpty = false

namespace Integral

instance : Integral Int where
  numeral v := toString v
  stoi s :=
    match OhMyDb.stoi s with
    | some v => .ok v
    | none => .error .invalidArgument
  stoi_numeral v := by rw [stoi_toString]
  numeral_isEmpty := toString_isEmpty

instance : Integral Int32 where
  numeral v := toString v.toInt
  stoi := stoiInt
  stoi_numeral := stoiInt_toString
  numeral_isEmpty v := toString_isEmpty v.toInt

theorem numeral_injective {V : Type} [Integral V] : Function.Injective (numeral (V := V)) :=
  fun a b same => by
    have values := congrArg (Integral.stoi (V := V)) same
    rw [stoi_numeral, stoi_numeral] at values
    exact Except.ok.inj values

end Integral

namespace LevelDBReal
variable {K V D : Type} [Integral K] [Integral V] (L : LevelDB D)
open Integral (numeral)

def get (db : D) (key : K) : Except StoiError (Option V) :=
  match L.get db (numeral key) with
  | some valueStr => if valueStr.isEmpty then .ok none else (Integral.stoi valueStr).map some
  | none => .ok none

def put (db : D) (kvp : K × V) : D × Bool :=
  L.put db (numeral kvp.1) (numeral kvp.2)

end LevelDBReal

/-- The map that can take its place. -/
structure LevelDBProxy (K V : Type) where
  mpp : AList (fun _ : K => V) := ∅

namespace LevelDBProxy
variable {K V : Type} [DecidableEq K] [Inhabited V]

def get (db : LevelDBProxy K V) (key : K) : Option V :=
  if key ∈ db.mpp then some ((db.mpp.lookup key).getD default) else none

def put (db : LevelDBProxy K V) (kvp : K × V) : LevelDBProxy K V × Bool :=
  ({ mpp := db.mpp.insert kvp.1 kvp.2 }, true)

theorem get_eq (db : LevelDBProxy K V) (key : K) : db.get key = db.mpp.lookup key := by
  unfold get
  split
  · next inside =>
    obtain ⟨v, found⟩ := Option.isSome_iff_exists.mp (AList.lookup_isSome.mpr inside)
    rw [found, Option.getD_some]
  · next outside => rw [AList.lookup_eq_none.mpr outside]

theorem get_put (db : LevelDBProxy K V) (kvp : K × V) :
    (db.put kvp).1.get = Function.update db.get kvp.1 (some kvp.2) := by
  funext key
  rw [get_eq, put, Function.update_apply, get_eq]
  split
  · next same => rw [same, AList.lookup_insert]
  · next other => rw [AList.lookup_insert_ne other]

end LevelDBProxy

/-- The switch of `Operation::execute` on `LevelDBReal`. -/
def RaftOp.executeOn {D : Type} (op : RaftOp) (L : LevelDB D) (db : D) :
    Except StoiError (D × Res) :=
  match op.command with
  | .get key => (LevelDBReal.get L db key).map fun value => (db, .value value)
  | .put key value =>
      let (db, ok) := LevelDBReal.put L db (key, value)
      .ok (db, .flag ok)
  | .addServer _ | .removeServer _ => .ok (db, .flag true)

/-- The database, what the present process has executed of its log, and how much each
process before it had. -/
structure Process (D : Type) where
  db : D
  executed : Nat := 0
  results : List (Nat × Res) := []
  crashes : List Nat := []

inductive ProcessAction where
  | execute
  /-- The process is killed and started again. -/
  | restart

namespace Process
variable {D : Type}

/-- `log` is what is committed. An exception nobody catches ends the process. -/
def step (L : LevelDB D) (log : List RaftOp) (s : Process D) : ProcessAction → Option (Process D)
  | .execute =>
      match log[s.executed]? with
      | none => none
      | some op =>
          match op.executeOn L s.db with
          | .error _ => none
          | .ok (db, res) => some { s with
              db := db
              executed := s.executed + 1
              results := s.results ++ [(s.executed, res)] }
  | .restart => some { db := s.db, crashes := s.executed :: s.crashes }

end Process
end OhMyDb
