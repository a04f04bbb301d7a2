import OhMyDb.Db.Reads
import OhMyDb.Db.Stores

/-!
Processes that are killed and execute their log from its first entry again, on the
database the ones before them have left. While one of them catches up the database is
not that of any prefix; from where the furthest of them got to, it is.
-/

namespace OhMyDb
open Execution

namespace RaftOp
variable {D : Type} {L : LevelDB D} {db : D} {m : Store}

/-- The database holds what the map says, and nothing else. -/
structure Shows (L : LevelDB D) (db : D) (m : Store) : Prop where
  keys : LevelDBReal.Shows L db m
  others : ∀ s : String, (∀ key : Int, Integral.numeral key ≠ s) → L.get db s = none

theorem Shows.put (shows : Shows L db m) (intact : L.Intact) (key value : Int) :
    Shows L (LevelDBReal.put L db (key, value)).1 (Function.update m key (some value)) := by
  refine ⟨shows.keys.put intact (key, value), fun s other => ?_⟩
  rw [LevelDBReal.put, intact.get_put, if_neg (Ne.symm (other key)), shows.others s other]

/-- `Operation::execute` does to the database what it does to the map. -/
theorem Shows.executeOn (shows : Shows L db m) (intact : L.Intact) (op : RaftOp) :
    ∃ db', op.executeOn L db = .ok (db', (runOk m op).2) ∧ Shows L db' (runOk m op).1 := by
  obtain ⟨command, handle⟩ := op
  cases command with
  | get key =>
      refine ⟨db, ?_, shows⟩
      simp [RaftOp.executeOn, shows.keys.get, Except.map, run, Store.get]
  | put key value =>
      refine ⟨_, ?_, shows.put intact key value⟩
      simp [RaftOp.executeOn, LevelDBReal.put, intact.put_ok, run, Store.put]
  | addServer _ | removeServer _ => exact ⟨db, rfl, shows⟩

/-- Databases that show one map answer alike. -/
theorem Shows.same {db' : D} (shows : Shows L db m) (shows' : Shows L db' m) (s : String) :
    L.get db s = L.get db' s := by
  by_cases h : ∃ key : Int, Integral.numeral key = s
  · obtain ⟨key, rfl⟩ := h
    rw [shows.keys, shows'.keys]
  · have other := not_exists.mp h
    rw [shows.others s other, shows'.others s other]

end RaftOp

namespace Process
variable {D : Type} {L : LevelDB D} {log : List RaftOp} {db₀ : D}
open AppliedLog (after)

/-- The operations, executed once from the given database. -/
def executeAll (L : LevelDB D) (ops : List RaftOp) (db : D) : Except StoiError D :=
  ops.foldlM (fun db op => (op.executeOn L db).map Prod.fst) db

theorem executeAll_shows (intact : L.Intact) (ops : List RaftOp) {db : D} {m : Store}
    (shows : RaftOp.Shows L db m) :
    ∃ db', executeAll L ops db = .ok db' ∧ RaftOp.Shows L db' (after runOk m ops) := by
  induction ops generalizing db m with
  | nil => exact ⟨db, rfl, shows⟩
  | cons op ops ih =>
      obtain ⟨db', ran, shows'⟩ := shows.executeOn intact op
      obtain ⟨last, rest, shown⟩ := ih shows'
      refine ⟨last, ?_, shown⟩
      rw [executeAll, List.foldlM_cons, ran]
      exact rest

/-- The database once what is executed has caught up with `n`. -/
structure Replayed (L : LevelDB D) (log : List RaftOp) (s : Process D) (base : Store) :
    Prop where
  shows : RaftOp.Shows L s.db (after runOk base (log.take s.executed))
  caughtUp : ∀ n, (∀ k ∈ s.crashes, k ≤ n) →
    after runOk base (log.take n) = after runOk (fun _ => none) (log.take n)
  answers : ∀ p ∈ s.results, ∀ op key, log[p.1]? = some op → op.command = .get key →
    (∀ k ∈ s.crashes, k ≤ p.1) → p.2 = .value (lastPut key (log.take p.1))

theorem Replayed.restart {s : Process D} {base : Store} (r : Replayed L log s base) :
    Replayed L log { db := s.db, crashes := s.executed :: s.crashes }
      (after runOk base (log.take s.executed)) := by
  refine ⟨r.shows, fun n covers => ?_, by simp⟩
  obtain ⟨here, before⟩ := List.forall_mem_cons.mp covers
  rw [runOk_overwrites.after_prefix base (List.take_prefix_take_left here)]
  exact r.caughtUp n before

theorem Replayed.execute {s s' : Process D} {base : Store} (r : Replayed L log s base)
    (intact : L.Intact) (hs : step L log s .execute = some s') : Replayed L log s' base := by
  cases here : log[s.executed]? with
  | none => simp [step, here] at hs
  | some op =>
      obtain ⟨db', ran, shows⟩ := r.shows.executeOn intact op
      simp only [step, here, ran, Option.some.injEq] at hs
      subst hs
      refine ⟨?_, r.caughtUp, fun p hp op' key at_ get covers => ?_⟩
      · simpa [List.take_add_one, here, AppliedLog.after_concat] using shows
      · rcases List.mem_append.mp hp with hp | hp
        · exact r.answers p hp op' key at_ get covers
        · obtain rfl := List.mem_singleton.mp hp
          obtain rfl : op = op' := Option.some.inj (here.symm.trans at_)
          have read := after_runOk (log.take s.executed) key
          rw [← r.caughtUp s.executed covers] at read
          simp [RaftOp.run, get, Store.get, read]

/-- Every entry of the log can be executed: nothing is thrown. -/
theorem Replayed.executes {s : Process D} {base : Store} (r : Replayed L log s base)
    (intact : L.Intact) {op : RaftOp} (here : log[s.executed]? = some op) :
    (step L log s .execute).isSome = true := by
  obtain ⟨db', ran, _⟩ := r.shows.executeOn intact op
  simp [step, here, ran]

theorem replayed (intact : L.Intact) (empty : ∀ key, L.get db₀ key = none)
    {h : List (Process D × ProcessAction)} {s : Process D}
    (run : Run (step L log) { db := db₀ } h s) : ∃ base, Replayed L log s base := by
  induction run with
  | start =>
      exact ⟨fun _ => none, ⟨fun _ => empty _, fun s _ => empty s⟩, fun _ _ => rfl, by simp⟩
  | @next h s s' a _ hs ih =>
      obtain ⟨base, r⟩ := ih
      cases a with
      | execute => exact ⟨base, r.execute intact hs⟩
      | restart =>
          cases hs
          exact ⟨_, r.restart⟩

/-- Once a process has executed as much as each one before it, the database is what one
execution from the empty database gives; and a GET that no process before has reached
reads what the PUTs before it in the log have written. -/
theorem replayHarmless (intact : L.Intact) (empty : ∀ key, L.get db₀ key = none)
    {h : List (Process D × ProcessAction)} {s : Process D}
    (run : Run (step L log) { db := db₀ } h s) :
    ((∀ k ∈ s.crashes, k ≤ s.executed) → ∃ db, executeAll L (log.take s.executed) db₀ = .ok db ∧
      ∀ key, L.get s.db key = L.get db key) ∧
    ∀ p ∈ s.results, ∀ op key, log[p.1]? = some op → op.command = .get key →
      (∀ k ∈ s.crashes, k ≤ p.1) → p.2 = .value (lastPut key (log.take p.1)) := by
  obtain ⟨base, r⟩ := replayed intact empty run
  refine ⟨fun covers => ?_, r.answers⟩
  obtain ⟨db, once, shows⟩ := executeAll_shows (m := fun _ => none) intact (log.take s.executed)
    ⟨fun _ => empty _, fun s _ => empty s⟩
  refine ⟨db, once, r.shows.same ?_⟩
  rw [r.caughtUp _ covers]
  exact shows

/-- A database that keeps all it is given. -/
def keepsAll : LevelDB (String → Option String) where
  get db key := db key
  put db key val := (Function.update db key (some val), true)

theorem keepsAll_intact : keepsAll.Intact :=
  ⟨fun _ _ _ => rfl, fun db key val key' => Function.update_apply db key (some val) key'⟩

/-- A process is killed after the second of two PUTs; the next one gets to a GET. -/
def killedOnce : List ProcessAction :=
  [.execute, .execute, .restart, .execute, .execute, .execute]

def twoPutsAndGet : List RaftOp :=
  [⟨.put 5 7, none⟩, ⟨.put 5 8, none⟩, ⟨.get 5, none⟩]

theorem replayHarmless_killedOnce :
    let s := (outcome (step keepsAll twoPutsAndGet) { db := fun _ => none } killedOnce).2
    s.crashes = [2] ∧ s.executed = 3 ∧ s.results[2]? = some (2, .value (some 8)) ∧
    ((∀ k ∈ s.crashes, k ≤ s.executed) →
      ∃ db, executeAll keepsAll (twoPutsAndGet.take s.executed) (fun _ => none) = .ok db ∧
        ∀ key, keepsAll.get s.db key = keepsAll.get db key) ∧
    ∀ p ∈ s.results, ∀ op key, twoPutsAndGet[p.1]? = some op → op.command = .get key →
      (∀ k ∈ s.crashes, k ≤ p.1) → p.2 = .value (lastPut key (twoPutsAndGet.take p.1)) :=
  ⟨by decide +kernel, by decide +kernel, by decide +kernel,
    replayHarmless keepsAll_intact (fun _ => rfl) (outcome_run _ _ _)⟩

end Process
end OhMyDb
