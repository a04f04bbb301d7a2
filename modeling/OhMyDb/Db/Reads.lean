import OhMyDb.Db.Promises
import OhMyDb.Db.Refinement
import OhMyDb.Db.Writes
import OhMyDb.Lib.AppliedLog

/-!
What a GET answers. As long as nothing that was applied is cut off the log, the
executer works through the log in order, so a GET that is executed reads what the
PUTs before it have written. A GET that is aborted instead is answered like one that
finds nothing.
-/

namespace OhMyDb
open Execution
open Relation (ReflTransGen)

def Command.isGet : Command → Bool
  | .get _ => true
  | _ => false

/-- The value an operation gives a key. -/
def RaftOp.written (key : Int) (op : RaftOp) : Option Int :=
  match op.command with
  | .put k value => if k = key then some value else none
  | _ => none

/-- The value of the last PUT for a key. -/
def lastPut (key : Int) (ops : List RaftOp) : Option Int :=
  ops.reverse.findSome? (RaftOp.written key)

/-- `Operation::execute` on a LevelDB that behaves as a map. -/
abbrev runOk (db : Store) (op : RaftOp) : Store × Res := op.run db true

theorem runOk_overwrites : AppliedLog.Overwrites runOk fun op key => op.written key := by
  intro db ⟨command, handle⟩ key
  cases command with
  | put k value =>
      by_cases same : k = key
      · simp [runOk, RaftOp.run, RaftOp.written, Store.put, same]
      · simp [runOk, RaftOp.run, RaftOp.written, Store.put, same,
          Function.update_of_ne (Ne.symm same)]
  | get _ | addServer _ | removeServer _ => rfl

/-- The store the operations lead to is the map of the last PUTs. -/
theorem after_runOk (ops : List RaftOp) (key : Int) :
    AppliedLog.after runOk (fun _ => none) ops key = lastPut key ops :=
  (runOk_overwrites.after _ ops key).trans Option.or_none

namespace Ledger
variable {l l' : Ledger}

/-- Nothing that was applied is cut off, no GET a call waits on is, and LevelDB
behaves as a map. -/
def Discipline.reads : Discipline where
  cut l n := l.lastApplied < n ∧
    ∀ e ∈ l.items.drop n, e.op.command.isGet = true → ¬ l.Awaits e.op
  execute _ _ ok := ok = true

instance (l : Ledger) (n : ℕ) : Decidable (Discipline.reads.cut l n) :=
  inferInstanceAs (Decidable (_ ∧ ∀ e ∈ l.items.drop n, _ → _))

instance (l : Ledger) (op : RaftOp) (ok : Bool) : Decidable (Discipline.reads.execute l op ok) :=
  inferInstanceAs (Decidable (ok = true))

theorem Discipline.reads_keeps :
    Discipline.reads.Keeps (fun command => command.isGet = true) fun _ => True where
  cut _ _ ok := ok.2
  execute _ _ _ _ _ _ := True.intro

/-- The log, what of it is decided, and what of that has been executed. -/
def applied (l : Ledger) : AppliedLog.State RaftOp Store Res where
  log := l.items.map (·.op)
  decided := (l.lastApplied + 1).toNat
  queue := l.committed
  done := l.executions
  store := l.db

structure Indexed (l : Ledger) : Prop where
  same : l.commitIndex = l.lastApplied
  low : -1 ≤ l.lastApplied
  high : l.lastApplied < l.items.length

theorem newly_eq {i : Int} (low : -1 ≤ l.lastApplied) (le : l.lastApplied ≤ i) :
    l.newly i =
      ((l.items.map (·.op)).take (i + 1).toNat).drop (l.lastApplied + 1).toNat := by
  have read (j : ℕ) : (if 0 ≤ l.lastApplied + 1 + j then
      l.items[(l.lastApplied + 1 + j).toNat]?.map (·.op) else none) =
        (l.items.map (·.op))[(l.lastApplied + 1).toNat + j]? := by
    rw [if_pos (by omega), List.getElem?_map]
    congr 2
    omega
  simp only [newly, read]
  rw [List.filterMap_range_getElem?, List.drop_take]
  congr 1
  omega

/-- Under the discipline the ledger moves its log as an applied log is moved. -/
theorem Step.applied (st : Step .reads l l') (x : Indexed l) :
    Indexed l' ∧ ReflTransGen (AppliedLog.Step runOk) l.applied l'.applied := by
  have low := x.low
  have high := x.high
  have same := x.same
  cases st with
  | move queued appending es _ _ _ =>
      refine ⟨{ x with high := ?_ }, .single ?_⟩
      · change l.lastApplied < ((l.items ++ es).length : Int)
        rw [List.length_append]
        omega
      · simpa [Ledger.applied] using
          AppliedLog.Step.append (f := runOk) (s := l.applied) (es.map (·.op))
  | cut n ok =>
      refine ⟨{ x with high := ?_ }, .single ?_⟩
      · have above := ok.1
        change l.lastApplied < ((l.items.take n).length : Int)
        rw [List.length_take]
        omega
      · simpa [Ledger.applied, List.map_take] using
          AppliedLog.Step.cut (f := runOk) (s := l.applied) n (Int.toNat_le.mpr ok.1)
  | commit i range inside =>
      have le : l.lastApplied ≤ i := by omega
      refine ⟨⟨rfl, low.trans le, inside⟩, .single ?_⟩
      have decided := AppliedLog.Step.decide (f := runOk) (s := l.applied) (i + 1).toNat
        (Int.toNat_le_toNat (by omega)) (by simp [Ledger.applied]; omega)
      simpa [Ledger.applied, newly_eq low le] using decided
  | execute op rest ok queue allowed =>
      obtain rfl : ok = true := allowed
      exact ⟨{ x with }, .single (.execute op rest queue)⟩
  | submit _ | start _ _ | advance _ _ _ _ _ _ | discard _ | send _ _ _ => exact ⟨{ x with }, .refl⟩

theorem Steps.applied (st : Steps .reads .start l) :
    Indexed l ∧ AppliedLog.Sound runOk (fun _ => none) l.applied := by
  have start : AppliedLog.Sound runOk (fun _ => none) (Ledger.start).applied :=
    ⟨Nat.le_refl _, rfl, .start⟩
  suffices h : Indexed l ∧
      ReflTransGen (AppliedLog.Step runOk) (Ledger.start).applied l.applied from
    ⟨h.1, start.steps h.2⟩
  induction st with
  | refl => exact ⟨⟨rfl, le_rfl, by simp [Ledger.start]⟩, .refl⟩
  | tail _ last ih =>
      obtain ⟨x, steps⟩ := last.applied ih.1
      exact ⟨x, ih.2.trans steps⟩

end Ledger

namespace Cluster
variable {c : Cluster}

/-- A GET that was accepted has been executed as the operation of its place in the
log, and answers the value of the last PUT before that place, or that there is none. -/
def ReadsCorrect (c : Cluster) : Prop :=
  ∀ r op it ret key, .returned op it ret ∈ (c.node r).calls → op.command = .get key →
    ret.errorCode ≠ .notLeader → ∃ n value,
      (c.node r).executions[n]? = some (op, .value value) ∧
      ((c.node r).state.logs.items.map (·.op))[n]? = some op ∧
      value = lastPut key (((c.node r).state.logs.items.map (·.op)).take n) ∧
      (ret.errorCode = .ok ∧ value = some ret.value ∨
        ret.errorCode = .keyNotFound ∧ value = none)

theorem readsCorrect {servers : List Int} {config : Int → IntMap ServerInfo}
    {h : List (Cluster × Action)} (run : Run step (launch servers config) h c)
    (ok : Meets (Obeys .reads) h) : ReadsCorrect c := by
  intro r op it ret key returned get accepted
  have steps := ledgers run ok r
  have p := Ledger.Promised.start.steps Ledger.Discipline.reads_keeps steps
  obtain ⟨res, executed, _, answer, _⟩ := p.answered (by rw [get]; rfl) returned accepted
  obtain ⟨n, hn⟩ := List.mem_iff_getElem?.mp executed
  obtain ⟨here, result⟩ := steps.applied.2.executed hn
  have value : res = .value (lastPut key (((c.node r).state.logs.items.map (·.op)).take n)) := by
    rw [result]
    simp only [runOk, RaftOp.run, get, Store.get, if_true]
    rw [after_runOk]
    rfl
  subst value
  refine ⟨n, _, hn, here, rfl, ?_⟩
  rw [get] at answer
  generalize lastPut key _ = value at answer
  cases value with
  | some v =>
      cases answer
      exact Or.inl ⟨rfl, rfl⟩
  | none =>
      cases answer
      exact Or.inr ⟨rfl, rfl⟩

/-- A GET goes through the queue of server 1 after a PUT, and into its log. -/
def submitGet : List Action :=
  [.clientGet 1 5, .callStep 1 1 0, .callStep 1 1 0] ++ List.replicate 5 (.raftImpl 1)

/-- The GET is replicated and executed like the PUT before. -/
def answeredGet : List Action :=
  answeredPut ++ submitGet ++
    [.appendSend 1 2 0, .appendDeliver 1 2 30, .appendReturn 1 2 ⟨1, true⟩ 31,
      .executer 1 true, .executer 1 true, .callStep 1 1 32]

theorem readsCorrect_answeredGet :
    ((outcome step (fixed threeServers) answeredGet).2.node 1).calls[1]?.bind Call.verdict =
      some (.get 5, .ok) ∧
    ReadsCorrect (outcome step (fixed threeServers) answeredGet).2 :=
  ⟨by decide +kernel, readsCorrect (outcome_run _ _ _) (by decide +kernel)⟩

/-- The GET stays on server 1. Server 3, which has the PUT, is elected for term 2, and
an entry of its own takes the place of the GET. -/
def abortedGet : List Action :=
  answeredPut ++ submitGet ++
    [.electionTick 3 50 5, .voteSend 3 0, .voteDeliver 3 0 51, .voteReturn 3 0 ⟨2, true⟩ 52] ++
    submitPut 3 6 8 ++ [.appendSend 3 1 0, .appendDeliver 3 1 60, .callStep 1 1 61]

theorem not_readsCorrect : ¬ ∀ (servers : List Int) (config : Int → IntMap ServerInfo)
    (h : List (Cluster × Action)) (c : Cluster),
    Run step (launch servers config) h c → ReadsCorrect c := by
  intro always
  have returned : ((outcome step (fixed threeServers) abortedGet).2.node 1).calls[1]?.bind
      Call.verdict = some (.get 5, .keyNotFound) := by decide +kernel
  have onlyPuts : ∀ x ∈ ((outcome step (fixed threeServers) abortedGet).2.node 1).executions,
      x.1.command.isPut = true := by decide +kernel
  obtain ⟨call, at_, verdict⟩ := Option.bind_eq_some_iff.mp returned
  obtain ⟨op, it, ret, rfl, get, code⟩ := Call.verdict_eq verdict
  obtain ⟨n, value, executed, _⟩ := always _ _ _ _
    (outcome_run step (fixed threeServers) abortedGet) 1 op it ret 5 (List.mem_of_getElem? at_)
    get (by rw [code]; decide)
  have put := onlyPuts _ (List.mem_of_getElem? executed)
  rw [get] at put
  cases put

end Cluster
end OhMyDb
