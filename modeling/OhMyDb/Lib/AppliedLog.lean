import Mathlib.Logic.Relation
import OhMyDb.Lib.Modify

/-!
A log whose decided part is executed, in order, on a state. New operations go to
the end, undecided ones can be cut off again, and what is decided is queued and
executed one by one. Whatever has been executed has then been executed on the
state the operations before it in the log lead to.
-/

namespace AppliedLog
open Relation (ReflTransGen)
universe u v w
variable {Op : Type u} {S : Type v} {R : Type w} {f : S → Op → S × R} {s₀ : S}

/-- The state a sequence of operations leads to. -/
def after (f : S → Op → S × R) (s₀ : S) (ops : List Op) : S :=
  ops.foldl (fun s op => (f s op).1) s₀

theorem after_concat (f : S → Op → S × R) (s₀ : S) (ops : List Op) (op : Op) :
    after f s₀ (ops ++ [op]) = (f (after f s₀ ops) op).1 := by
  simp [after]

/-- The operations executed so far with their results, and the state they left. -/
inductive Replayed (f : S → Op → S × R) (s₀ : S) : List (Op × R) → S → Prop where
  | start : Replayed f s₀ [] s₀
  | next {done : List (Op × R)} {s : S} (op : Op) :
      Replayed f s₀ done s → Replayed f s₀ (done ++ [(op, (f s op).2)]) (f s op).1

theorem Replayed.store {done : List (Op × R)} {s : S} (h : Replayed f s₀ done s) :
    s = after f s₀ (done.map Prod.fst) := by
  induction h with
  | start => rfl
  | next op _ ih => rw [List.map_append, List.map_singleton, after_concat, ← ih]

/-- Each result is what the operation yields after those before it. -/
theorem Replayed.result {done : List (Op × R)} {s : S} (h : Replayed f s₀ done s) {n : ℕ}
    {op : Op} {res : R} (hn : done[n]? = some (op, res)) :
    res = (f (after f s₀ ((done.map Prod.fst).take n)) op).2 := by
  induction h with
  | start => simp at hn
  | @next done s last h ih =>
      rcases List.getElem?_concat_cases hn with old | ⟨rfl, same⟩
      · have inside := (List.getElem?_eq_some_iff.mp old).1
        rw [List.map_append, List.take_append_of_le_length (by simpa using Nat.le_of_lt inside)]
        exact ih old
      · cases same
        rw [List.map_append, List.take_left' (List.length_map _), ← h.store]

structure State (Op : Type u) (S : Type v) (R : Type w) where
  log : List Op
  decided : ℕ
  queue : List Op
  done : List (Op × R)
  store : S

/-- One step. Only what is not decided can be cut off. -/
inductive Step (f : S → Op → S × R) (s : State Op S R) : State Op S R → Prop where
  | append (ops : List Op) : Step f s { s with log := s.log ++ ops }
  | cut (n : ℕ) : s.decided ≤ n → Step f s { s with log := s.log.take n }
  | decide (n : ℕ) : s.decided ≤ n → n ≤ s.log.length →
      Step f s { s with decided := n, queue := s.queue ++ (s.log.take n).drop s.decided }
  | execute (op : Op) (rest : List Op) : s.queue = op :: rest →
      Step f s { s with
        queue := rest
        done := s.done ++ [(op, (f s.store op).2)]
        store := (f s.store op).1 }

/-- The decided part of the log is what has been executed and what is queued. -/
structure Sound (f : S → Op → S × R) (s₀ : S) (s : State Op S R) : Prop where
  inside : s.decided ≤ s.log.length
  order : s.done.map Prod.fst ++ s.queue = s.log.take s.decided
  replayed : Replayed f s₀ s.done s.store

variable {s s' : State Op S R}

theorem Sound.step (h : Sound f s₀ s) (st : Step f s s') : Sound f s₀ s' := by
  have inside := h.inside
  cases st with
  | append ops =>
      exact { h with
        inside := Nat.le_trans inside (by simp)
        order := by rw [List.take_append_of_le_length inside]; exact h.order }
  | cut n le =>
      exact { h with
        inside := by simpa using Nat.le_min.mpr ⟨le, inside⟩
        order := by rw [List.take_take, Nat.min_eq_left le]; exact h.order }
  | decide n le le' =>
      refine { h with inside := le', order := ?_ }
      have split := List.take_append_drop s.decided (s.log.take n)
      rw [List.take_take, Nat.min_eq_left le] at split
      rw [← List.append_assoc, h.order, split]
  | execute op rest queue =>
      refine ⟨inside, ?_, .next op h.replayed⟩
      rw [← h.order, queue]
      simp

theorem Sound.steps (h : Sound f s₀ s) (st : ReflTransGen (Step f) s s') : Sound f s₀ s' := by
  induction st with
  | refl => exact h
  | tail _ last ih => exact ih.step last

/-- The `n`th operation to be executed is the `n`th of the log, and its result is
what it yields after the log's first `n` operations. -/
theorem Sound.executed (h : Sound f s₀ s) {n : ℕ} {op : Op} {res : R}
    (hn : s.done[n]? = some (op, res)) :
    s.log[n]? = some op ∧ res = (f (after f s₀ (s.log.take n)) op).2 := by
  have here : (s.done.map Prod.fst)[n]? = some op := by rw [List.getElem?_map, hn]; rfl
  have lt : n < (s.done.map Prod.fst).length := (List.getElem?_eq_some_iff.mp here).1
  have total := congrArg List.length h.order
  rw [List.length_append, List.length_take] at total
  have whole : (s.done.map Prod.fst ++ s.queue).take n = (s.done.map Prod.fst).take n :=
    List.take_append_of_le_length (Nat.le_of_lt lt)
  have first : (s.done.map Prod.fst).take n = s.log.take n := by
    rw [← whole, h.order, List.take_take, Nat.min_eq_left (by omega)]
  refine ⟨?_, ?_⟩
  · rw [← List.getElem?_take_of_lt (show n < s.decided by omega), ← h.order,
      List.getElem?_append_left lt]
    exact here
  · rw [← first]
    exact h.replayed.result hn

/-! Operations on a map that give some keys a value, whatever the map was before. What a
prefix of a log has left behind does not outlive the execution of the whole log. -/

section Overwriting
variable {K : Type u} {V : Type v} {f : (K → Option V) → Op → (K → Option V) × R}
  {written : Op → K → Option V}

/-- `written` says which keys an operation gives which value; it keeps the others. -/
def Overwrites (f : (K → Option V) → Op → (K → Option V) × R) (written : Op → K → Option V) :
    Prop :=
  ∀ m op k, (f m op).1 k = (written op k).or (m k)

/-- The last value a sequence of operations gives a key. -/
def lastWritten (written : Op → K → Option V) (k : K) (ops : List Op) : Option V :=
  ops.reverse.findSome? (written · k)

theorem lastWritten_append (written : Op → K → Option V) (k : K) (ops ops' : List Op) :
    lastWritten written k (ops ++ ops') =
      (lastWritten written k ops').or (lastWritten written k ops) := by
  simp [lastWritten, List.findSome?_append]

theorem Overwrites.after (w : Overwrites f written) (m : K → Option V) (ops : List Op) (k : K) :
    AppliedLog.after f m ops k = (lastWritten written k ops).or (m k) := by
  induction ops generalizing m with
  | nil => rfl
  | cons op ops ih =>
      change AppliedLog.after f (f m op).1 ops k = _
      rw [ih, w, ← List.singleton_append, lastWritten_append, Option.or_assoc]
      congr 2
      simp [lastWritten]

/-- A log absorbs what one of its prefixes has done before. -/
theorem Overwrites.after_prefix (w : Overwrites f written) (m : K → Option V)
    {ops ops' : List Op} (h : ops <+: ops') :
    AppliedLog.after f (AppliedLog.after f m ops) ops' = AppliedLog.after f m ops' := by
  obtain ⟨rest, rfl⟩ := h
  funext k
  rw [w.after, w.after, w.after, lastWritten_append]
  cases lastWritten written k rest with
  | some v => rfl
  | none => cases lastWritten written k ops <;> rfl

end Overwriting
end AppliedLog
