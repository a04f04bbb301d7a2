import OhMyDb.Lib.Quorum
import Mathlib.Data.Set.Insert
import Mathlib.Logic.Relation
import Mathlib.Data.Int.Basic

/-!
Leader-based log replication, over any nodes, operations and quorum system.

A message carries the sender's whole log: shipping a suffix of it together with
a check on the entry before it is an encoding that implementations choose. Next
to what the nodes store, the state keeps what has happened: votes with the two
logs that were compared, the leader of each term with the log it was elected
with and the log it has built, acknowledgements and commits.
-/

namespace LeaderLog
variable {N Op : Type*}

structure Entry (Op : Type*) where
  term : ℤ
  op : Op
  deriving DecidableEq

abbrev Log (Op : Type*) := List (Entry Op)

/-- The term of the last entry, or -1. -/
def lastTerm (l : Log Op) : ℤ :=
  match l.getLast? with
  | some e => e.term
  | none => -1

/-- The comparison of logs that a vote depends on. -/
def UpToDate (candidate voter : Log Op) : Prop :=
  lastTerm voter < lastTerm candidate ∨
    (lastTerm candidate = lastTerm voter ∧ voter.length ≤ candidate.length)

inductive Role where
  | follower
  | candidate
  | leader

structure Request (N Op : Type*) where
  candidate : N
  term : ℤ
  log : Log Op

structure Vote (N Op : Type*) where
  voter : N
  candidate : N
  term : ℤ
  voterLog : Log Op
  candidateLog : Log Op

structure Message (N Op : Type*) where
  sender : N
  term : ℤ
  log : Log Op
  commit : ℕ

/-- An acknowledgement: in `term`, `node` has held the first `count` entries of
that term's leader. -/
structure Ack (N : Type*) where
  node : N
  term : ℤ
  count : ℕ

structure State (N Op : Type*) where
  term : N → ℤ
  role : N → Role
  log : N → Log Op
  commit : N → ℕ
  requests : Set (Request N Op)
  votes : Set (Vote N Op)
  leader : ℤ → Option N
  quorum : ℤ → Finset N
  base : ℤ → Log Op
  led : ℤ → Log Op
  messages : Set (Message N Op)
  acks : Set (Ack N)
  committed : Set (ℤ × ℕ)

/-- Everybody a follower in term 0 with an empty log. -/
def State.init : State N Op where
  term _ := 0
  role _ := .follower
  log _ := []
  commit _ := 0
  requests := ∅
  votes := ∅
  leader _ := none
  quorum _ := ∅
  base _ := []
  led _ := []
  messages := ∅
  acks := ∅
  committed := ∅

/-- Who may send log messages in the name of a term. -/
abbrev Discipline (N Op : Type*) := State N Op → N → ℤ → Prop

namespace Discipline

def anyone : Discipline N Op := fun _ _ _ => True

/-- A node that has at some time been the leader of the term. -/
def pastLeader : Discipline N Op := fun s n t => s.leader t = some n

/-- A node that is the leader of the term now. -/
def presentLeader : Discipline N Op := fun s n t => s.role n = .leader ∧ s.term n = t

end Discipline

/-- What a node's log becomes when it takes over a message's log: entries behind
the message are dropped only where the two differ. -/
def Merged (old new message : Log Op) : Prop :=
  (message <+: old ∧ new = old) ∨ (¬ message <+: old ∧ new = message)

variable [DecidableEq N]
open Function (update)

def State.startElection (s : State N Op) (n : N) : State N Op :=
  { s with
    term := update s.term n (s.term n + 1)
    role := update s.role n .candidate
    votes := insert ⟨n, n, s.term n + 1, s.log n, s.log n⟩ s.votes }

def State.observe (s : State N Op) (n : N) (t : ℤ) : State N Op :=
  { s with term := update s.term n t, role := update s.role n .follower }

def State.request (s : State N Op) (n : N) (t : ℤ) : State N Op :=
  { s with requests := insert ⟨n, t, s.log n⟩ s.requests }

def State.grant (s : State N Op) (v : N) (q : Request N Op) : State N Op :=
  { s with votes := insert ⟨v, q.candidate, q.term, s.log v, q.log⟩ s.votes }

def State.elect (s : State N Op) (n : N) (A : Finset N) : State N Op :=
  { s with
    role := update s.role n .leader
    leader := update s.leader (s.term n) (some n)
    quorum := update s.quorum (s.term n) A
    base := update s.base (s.term n) (s.log n)
    led := update s.led (s.term n) (s.log n) }

def State.append (s : State N Op) (n : N) (op : Op) : State N Op :=
  { s with
    log := update s.log n (s.log n ++ [⟨s.term n, op⟩])
    led := update s.led (s.term n) (s.log n ++ [⟨s.term n, op⟩]) }

def State.send (s : State N Op) (n : N) (t : ℤ) : State N Op :=
  { s with messages := insert ⟨n, t, s.log n, s.commit n⟩ s.messages }

def State.accept (s : State N Op) (v : N) (m : Message N Op) (l : Log Op) : State N Op :=
  { s with
    log := update s.log v l
    commit := update s.commit v (max (s.commit v) (min m.commit l.length))
    acks := s.acks ∪ {a | a = ⟨v, m.term, m.log.length⟩ ∧ m.log <+: s.led m.term} }

def State.commitTo (s : State N Op) (n : N) (k : ℕ) : State N Op :=
  { s with
    commit := update s.commit n (max (s.commit n) k)
    acks := insert ⟨n, s.term n, k⟩ s.acks
    committed := insert (s.term n, k) s.committed }

/-- The quorum behind a commit: the leader itself, and nodes that have
acknowledged at least as much. -/
def Replicated (s : State N Op) (n : N) (k : ℕ) (A : Finset N) : Prop :=
  ∀ v ∈ A, v = n ∨ ∃ j, k ≤ j ∧ (⟨v, s.term n, j⟩ : Ack N) ∈ s.acks

inductive Step (Q : Quorum.System N) (D : Discipline N Op) : State N Op → State N Op → Prop where
  | startElection (s : State N Op) (n : N) : s.role n ≠ .leader → Step Q D s (s.startElection n)
  | observe (s : State N Op) (n : N) (t : ℤ) : s.term n ≤ t → Step Q D s (s.observe n t)
  | request (s : State N Op) (n : N) (t : ℤ) : t ≤ s.term n → Step Q D s (s.request n t)
  | grant (s : State N Op) (v : N) (q : Request N Op) :
      q ∈ s.requests → s.term v = q.term → UpToDate q.log (s.log v) →
      (∀ w ∈ s.votes, w.voter = v → w.term = q.term → w.candidate = q.candidate) →
      Step Q D s (s.grant v q)
  | elect (s : State N Op) (n : N) (A : Finset N) :
      s.role n = .candidate → Q.IsQuorum A →
      (∀ v ∈ A, ∃ w ∈ s.votes, w.voter = v ∧ w.candidate = n ∧ w.term = s.term n) →
      Step Q D s (s.elect n A)
  | append (s : State N Op) (n : N) (op : Op) :
      s.role n = .leader → Step Q D s (s.append n op)
  | send (s : State N Op) (n : N) (t : ℤ) : D s n t → Step Q D s (s.send n t)
  | accept (s : State N Op) (v : N) (m : Message N Op) (l : Log Op) :
      m ∈ s.messages → s.term v = m.term → s.role v = .follower →
      Merged (s.log v) l m.log → Step Q D s (s.accept v m l)
  | commitTo (s : State N Op) (n : N) (k : ℕ) (A : Finset N) :
      s.role n = .leader → (s.base (s.term n)).length < k → k ≤ (s.log n).length →
      Q.IsQuorum A → Replicated s n k A →
      Step Q D s (s.commitTo n k)

abbrev Steps (Q : Quorum.System N) (D : Discipline N Op) :=
  Relation.ReflTransGen (Step Q D)

theorem Step.mono {Q : Quorum.System N} {D D' : Discipline N Op} {s s' : State N Op}
    (h : Step Q D s s') (imp : ∀ n t, D s n t → D' s n t) : Step Q D' s s' := by
  cases h with
  | startElection n h => exact .startElection s n h
  | observe n t h => exact .observe s n t h
  | request n t h => exact .request s n t h
  | grant v q h₁ h₂ h₃ h₄ => exact .grant s v q h₁ h₂ h₃ h₄
  | elect n A h₁ h₂ h₃ => exact .elect s n A h₁ h₂ h₃
  | append n op h => exact .append s n op h
  | send n t h => exact .send s n t (imp n t h)
  | accept v m l h₁ h₂ h₃ h₄ => exact .accept s v m l h₁ h₂ h₃ h₄
  | commitTo n k A h₁ h₂ h₃ h₄ h₅ => exact .commitTo s n k A h₁ h₂ h₃ h₄ h₅

end LeaderLog
