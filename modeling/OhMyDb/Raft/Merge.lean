import OhMyDb.Raft.Fixed
import OhMyDb.Lib.LeaderLog.Merging

/-!
`AppendEntries` as an encoding of log messages. The parameters stand for the
whole log of the sender: they carry it from `NextIndex` on, with the term of the
entry before. A replica whose entry there has that term ends up with the merge of
its own log and the sender's.
-/

namespace OhMyDb
open LeaderLog (Alike Entry Log Merged)

abbrev AbstractLog := Log Command

/-- The log without the promises, which no other replica sees. -/
def abstractLog (items : List LogEntry) : AbstractLog :=
  items.map fun e => ⟨e.term, e.op.command⟩

@[simp] theorem abstractLog_length (items : List LogEntry) :
    (abstractLog items).length = items.length :=
  List.length_map _

@[simp] theorem abstractLog_append (items items' : List LogEntry) :
    abstractLog (items ++ items') = abstractLog items ++ abstractLog items' :=
  List.map_append

theorem abstractLog_getElem? (items : List LogEntry) (i : Nat) :
    (abstractLog items)[i]? = items[i]?.map fun e => ⟨e.term, e.op.command⟩ :=
  List.getElem?_map

theorem abstractLog_take (items : List LogEntry) (n : Nat) :
    abstractLog (items.take n) = (abstractLog items).take n :=
  List.map_take

theorem abstractLog_drop (items : List LogEntry) (n : Nat) :
    abstractLog (items.drop n) = (abstractLog items).drop n :=
  List.map_drop

/-- The entries of a message as the receiver will store them. -/
def abstractEntries (es : List AppendLogEntry) : AbstractLog :=
  abstractLog (es.map AppendLogEntry.entry)

theorem abstractEntries_length (es : List AppendLogEntry) :
    (abstractEntries es).length = es.length := by
  simp [abstractEntries]

theorem abstractEntries_drop (es : List AppendLogEntry) (n : Nat) :
    abstractEntries (es.drop n) = (abstractEntries es).drop n := by
  simp [abstractEntries, abstractLog, List.map_drop]

/-- The parameters are built from a log. `prevLogTerm` means something only where
the log reaches `prevLogIndex`. -/
structure Encodes (log : AbstractLog) (nextIndex : Int) (args : AppendEntriesParams) : Prop where
  prevLogIndex : args.prevLogIndex = nextIndex - 1
  entries : abstractEntries args.entries = if nextIndex < 0 then [] else log.drop nextIndex.toNat
  prevLogTerm : 0 ≤ nextIndex - 1 → ∀ e ∈ log[(nextIndex - 1).toNat]?, args.prevLogTerm = e.term

namespace Replica

theorem entriesFrom_abstract (logs : LogVector) (nextIndex : Int) :
    abstractEntries (entriesFrom logs nextIndex) =
      if nextIndex < 0 then [] else (abstractLog logs.items).drop nextIndex.toNat := by
  unfold entriesFrom
  split
  · rfl
  · simp only [abstractEntries, abstractLog, ← List.map_drop]
    refine List.ext_getElem? fun i => ?_
    simp only [List.getElem?_map, List.getElem?_mapIdx, Option.map_map]
    rfl

theorem appendParams_encodes (r : Replica) (saved nextIndex junk : Int) :
    Encodes (abstractLog r.state.logs.items) nextIndex
      (r.appendParams saved nextIndex junk) where
  prevLogIndex := rfl
  entries := entriesFrom_abstract r.state.logs nextIndex
  prevLogTerm := by
    intro pos e he
    rw [abstractLog_getElem?] at he
    obtain ⟨x, hx, rfl⟩ := Option.mem_map.mp he
    have at_ : r.state.logs.at? (nextIndex - 1) = some x := by
      rw [LogVector.at?, if_pos pos]
      exact hx
    change prevTerm r.state.logs (nextIndex - 1) junk = x.term
    rw [prevTerm, if_pos pos, at_]

/-- The merge loop stops at the end of a list or at the first difference. -/
theorem matchingEntries_spec (ls : List LogEntry) (es : List AppendLogEntry) :
    (∀ i < matchingEntries ls es, ∃ l e, ls[i]? = some l ∧ es[i]? = some e ∧ l.term = e.term) ∧
    (matchingEntries ls es = ls.length ∨ matchingEntries ls es = es.length ∨
      ∃ l e, ls[matchingEntries ls es]? = some l ∧ es[matchingEntries ls es]? = some e ∧
        l.term ≠ e.term) := by
  induction ls, es using matchingEntries.induct with
  | case1 l ls e es differ =>
      simp only [matchingEntries, if_pos differ]
      exact ⟨fun i h => absurd h (Nat.not_lt_zero i), Or.inr (Or.inr ⟨l, e, rfl, rfl, differ⟩)⟩
  | case2 l ls e es same ih =>
      simp only [matchingEntries, if_neg same]
      refine ⟨fun i h => ?_, ?_⟩
      · cases i with
        | zero => exact ⟨l, e, rfl, rfl, not_not.mp same⟩
        | succ i => simpa using ih.1 i (Nat.succ_lt_succ_iff.mp h)
      · simpa using ih.2
  | case3 ls es h =>
      rw [matchingEntries.eq_2 _ _ h]
      refine ⟨fun i h => absurd h (Nat.not_lt_zero i), ?_⟩
      cases ls with
      | nil => exact Or.inl rfl
      | cons l ls =>
          cases es with
          | nil => exact Or.inr (Or.inl rfl)
          | cons e es => exact (h l ls e es rfl rfl).elim

/-- Without entries the log stays as it is. -/
theorem mergedItems_nil (logs : LogVector) {args : AppendEntriesParams}
    (h : args.entries = []) : mergedItems logs args = logs.items := by
  simp [mergedItems, h]

variable {log : AbstractLog} {logs : LogVector}
  {args : AppendEntriesParams} {nextIndex : Int}

/-- The check of the previous entry makes the two logs agree up to it. -/
theorem prevMatches_take (alike : Alike (abstractLog logs.items) log)
    (enc : Encodes log nextIndex args) (le : nextIndex ≤ log.length)
    (prev : prevMatches logs args) : ∃ n : ℕ, nextIndex = n ∧ n ≤ logs.items.length ∧
      (abstractLog logs.items).take n = log.take n := by
  rcases prev with prev | ⟨inside, prev⟩
  · exact ⟨0, by have := enc.prevLogIndex; omega, Nat.zero_le _, rfl⟩
  · obtain ⟨e, he, term⟩ := Option.map_eq_some_iff.mp prev
    have pos : 0 ≤ args.prevLogIndex := by
      by_contra neg
      rw [LogVector.at?, if_neg neg] at he
      cases he
    rw [LogVector.at?, if_pos pos] at he
    obtain ⟨n, hn⟩ := Int.eq_ofNat_of_zero_le pos
    rw [hn, Int.toNat_natCast] at he
    have next : nextIndex = n + 1 := by have := enc.prevLogIndex; omega
    have short : n < log.length := by omega
    have mine : (abstractLog logs.items)[n]? = some ⟨e.term, e.op.command⟩ := by
      rw [abstractLog_getElem?, he]
      rfl
    have theirs : log[n]? = some log[n] := List.getElem?_eq_getElem short
    have same : args.prevLogTerm = log[n].term := by
      refine enc.prevLogTerm (by omega) _ ?_
      rw [show (nextIndex - 1).toNat = n by omega]
      exact theirs
    refine ⟨n + 1, by omega, ?_, alike _ _ _ mine theirs (term.trans same)⟩
    exact (List.getElem?_eq_some_iff.mp he).1

theorem matchingEntries_agreeing (ls : List LogEntry) (es : List AppendLogEntry) :
    matchingEntries ls es = LeaderLog.agreeing (abstractLog ls) (abstractEntries es) := by
  induction ls, es using matchingEntries.induct with
  | case1 l ls e es differ =>
      rw [matchingEntries, if_pos differ]
      exact (if_neg differ).symm
  | case2 l ls e es same ih =>
      rw [matchingEntries, if_neg same, ih]
      exact (if_pos (not_not.mp same)).symm
  | case3 ls es h =>
      rw [matchingEntries.eq_2 _ _ h]
      cases ls with
      | nil => rfl
      | cons l ls =>
          cases es with
          | nil => rfl
          | cons e es => exact (h l ls e es rfl rfl).elim

theorem mergedItems_mergeAt (logs : LogVector) (args : AppendEntriesParams) :
    abstractLog (mergedItems logs args) =
      LeaderLog.mergeAt (abstractLog logs.items) (args.prevLogIndex + 1).toNat
        (abstractEntries args.entries) := by
  rw [LeaderLog.mergeAt, abstractEntries_length, ← abstractLog_drop, ← matchingEntries_agreeing]
  unfold mergedItems logInsertIndex newEntriesIndex
  split
  · rw [abstractLog_append, ← abstractEntries, abstractEntries_drop, abstractLog_take]
  · rfl

/-- What `AppendEntries` makes of the log is the merge with the sender's log. -/
theorem mergedItems_merged (alike : Alike (abstractLog logs.items) log)
    (enc : Encodes log nextIndex args) (le : nextIndex ≤ log.length)
    (prev : prevMatches logs args) :
    Merged (abstractLog logs.items) (abstractLog (mergedItems logs args)) log := by
  obtain ⟨n, rfl, inside, agree⟩ := prevMatches_take alike enc le prev
  have start : (args.prevLogIndex + 1).toNat = n := by have := enc.prevLogIndex; omega
  rw [mergedItems_mergeAt, enc.entries, if_neg (by omega), start, Int.toNat_natCast]
  exact alike.mergeAt (by rwa [abstractLog_length]) agree

end Replica
end OhMyDb
