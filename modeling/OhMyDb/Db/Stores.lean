import OhMyDb.Lib.Objects
import OhMyDb.Model.KeyValue

/-!
The store on LevelDB answers as the map does. A key stands in the database under its
decimal numeral and under no other, and its value is read back from the numeral that was
written for it.
-/

namespace OhMyDb
open Integral (numeral)

namespace LevelDBReal
variable {K V D : Type} [Integral K] [Integral V] {L : LevelDB D} {db : D} {m : K → Option V}

/-- The database has the entries of the map, and no other key that is a numeral. -/
def Shows (L : LevelDB D) (db : D) (m : K → Option V) : Prop :=
  ∀ key : K, L.get db (numeral key) = (m key).map numeral

theorem Shows.get (shows : Shows L db m) (key : K) : LevelDBReal.get L db key = .ok (m key) := by
  rw [LevelDBReal.get, shows key]
  cases m key with
  | none => rfl
  | some v =>
      simp only [Option.map_some, Integral.numeral_isEmpty, Bool.false_eq_true, if_false,
        Integral.stoi_numeral, Except.map]

/-- The numerals of two keys are apart, so that a write is seen under its own key only. -/
theorem Shows.put [DecidableEq K] (shows : Shows L db m) (intact : L.Intact) (kvp : K × V) :
    Shows L (LevelDBReal.put L db kvp).1 (Function.update m kvp.1 (some kvp.2)) := by
  intro key
  rw [LevelDBReal.put, intact.get_put]
  by_cases same : key = kvp.1
  · rw [same, if_pos rfl, Function.update_self, Option.map_some]
  · have apart : numeral key ≠ numeral kvp.1 := fun e => same (Integral.numeral_injective e)
    rw [if_neg apart, shows key, Function.update_of_ne same]

end LevelDBReal

namespace KeyValue
variable {D : Type} {L : LevelDB D}

theorem alike (intact : L.Intact) :
    Objects.Alike (real L) proxy fun db map => LevelDBReal.Shows L db map.get := by
  intro db map c shows
  cases c with
  | get key =>
      refine ⟨.value (map.get key), db, map, ?_, rfl, shows⟩
      rw [real, shows.get key, Except.map]
  | put kvp =>
      refine ⟨.flag true, (LevelDBReal.put L db kvp).1, (map.put kvp).1, ?_, rfl, ?_⟩
      · rw [real, LevelDBReal.put, intact.put_ok]
      · change LevelDBReal.Shows L _ (map.put kvp).1.get
        rw [LevelDBProxy.get_put]
        exact shows.put intact kvp

/-- On a LevelDB that keeps what it is given, and begins empty, a sequence of calls is
answered as by the map, without an exception. -/
theorem refinesProxy (intact : L.Intact) (empty : ∀ key, L.get db key = none)
    (calls : List Call) : ∃ results, Objects.answers (real L) db calls = .ok results ∧
      Objects.answers proxy {} calls = .ok results :=
  (alike intact).answers (fun _ => empty _) calls

/-- A LevelDB that is a list of its writes, the last one first. -/
def writeLog : LevelDB (List (String × String)) where
  get db key := (db.find? (·.1 == key)).map (·.2)
  put db key val := ((key, val) :: db, true)

theorem writeLog_intact : writeLog.Intact := by
  refine ⟨fun _ _ _ => rfl, fun db key val key' => ?_⟩
  by_cases same : key' = key
  · simp [writeLog, same]
  · simp [writeLog, same, Ne.symm same]

theorem refinesProxy_extremes : ∃ results,
    Objects.answers (real writeLog) []
      [.put (Int32.minValue, Int32.maxValue), .put (-1, Int32.minValue), .put (1, 0),
        .get Int32.minValue, .get (-1), .get 1, .get 0] = .ok results ∧
    Objects.answers proxy {}
      [.put (Int32.minValue, Int32.maxValue), .put (-1, Int32.minValue), .put (1, 0),
        .get Int32.minValue, .get (-1), .get 1, .get 0] = .ok results :=
  refinesProxy writeLog_intact (fun _ => rfl) _

end KeyValue
end OhMyDb
