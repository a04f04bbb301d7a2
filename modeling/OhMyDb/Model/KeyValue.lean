import OhMyDb.Model.LevelDB

/-!
The two stores of `LevelDBProxy.H` at `int`, `LevelDBReal<int, int>` on a LevelDB and the map
`LevelDBProxy<int, int>`, as objects that are called.
-/

namespace OhMyDb
namespace KeyValue

/-- A call of `get` or of `put`. -/
inductive Call where
  | get (key : Int32)
  | put (kvp : Int32 × Int32)
  deriving DecidableEq

inductive Result where
  | value (v : Option Int32)
  | flag (b : Bool)
  deriving DecidableEq

def real {D : Type} (L : LevelDB D) (db : D) : Call → Except StoiError (Result × D)
  | .get key => (LevelDBReal.get L db key).map fun v => (.value v, db)
  | .put kvp => .ok (.flag (LevelDBReal.put L db kvp).2, (LevelDBReal.put L db kvp).1)

def proxy (db : LevelDBProxy Int32 Int32) :
    Call → Except StoiError (Result × LevelDBProxy Int32 Int32)
  | .get key => .ok (.value (db.get key), db)
  | .put kvp => .ok (.flag (db.put kvp).2, (db.put kvp).1)

end KeyValue
end OhMyDb
