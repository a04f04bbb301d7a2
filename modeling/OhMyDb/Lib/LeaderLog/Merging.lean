import OhMyDb.Lib.LeaderLog.Matching

/-!
Merging by terms. A sender ships its log from some position on, and the receiver,
whose log agrees with the sender's up to there, keeps its own entries as long as the
terms are the same. Where entries of one term at one position have the same past, as
they have in genuine logs, that is the merge with the sender's whole log.
-/

namespace LeaderLog
variable {N Op : Type*} {s : State N Op} {l l' old new message entries : Log Op} {n : ℕ}

/-- Entries of one term at one position have the same past. -/
def Alike (l l' : Log Op) : Prop :=
  ∀ i e e', l[i]? = some e → l'[i]? = some e' → e.term = e'.term →
    l.take (i + 1) = l'.take (i + 1)

instance [DecidableEq Op] (l l' : Log Op) : Decidable (Alike l l') :=
  decidable_of_iff (∀ i < l.length, ∀ e ∈ l[i]?, ∀ e' ∈ l'[i]?, e.term = e'.term →
      l.take (i + 1) = l'.take (i + 1))
    ⟨fun h i e e' he he' same => h i (List.getElem?_eq_some_iff.mp he).1 e he e' he' same,
      fun h i _ e he e' he' same => h i e e' he he' same⟩

theorem Genuine.alike (g : Genuine s l) (g' : Genuine s l') : Alike l l' :=
  fun _ _ _ h h' same => g.match g' h h' same

theorem Alike.refl (l : Log Op) : Alike l l :=
  fun _ _ _ _ _ _ => rfl

theorem Alike.shorter {k : Log Op} (h : Alike l l') (shorter : k <+: l') : Alike l k := by
  obtain ⟨rest, rfl⟩ := shorter
  intro i e e' he he' same
  have inside := (List.getElem?_eq_some_iff.mp he').1
  have longer : (k ++ rest)[i]? = some e' := by rw [List.getElem?_append_left inside, he']
  rw [h i e e' he longer same, List.take_append_of_le_length (Nat.succ_le_of_lt inside)]

/-- A log is like what it begins with. -/
theorem Alike.whole (h : l' <+: l) : Alike l l' :=
  (Alike.refl l).shorter h

/-- How many entries have the same terms before the first that differ. -/
def agreeing : Log Op → Log Op → ℕ
  | e :: l, e' :: l' => if e.term = e'.term then agreeing l l' + 1 else 0
  | _, _ => 0

/-- The receiver's log when entries arrive that the sender has from `n` on. -/
def mergeAt (old : Log Op) (n : ℕ) (entries : Log Op) : Log Op :=
  if agreeing (old.drop n) entries < entries.length then
    old.take (n + agreeing (old.drop n) entries) ++ entries.drop (agreeing (old.drop n) entries)
  else old

theorem agreeing_term {l l' : Log Op} {i : ℕ} (h : i < agreeing l l') :
    ∃ e e', l[i]? = some e ∧ l'[i]? = some e' ∧ e.term = e'.term := by
  fun_induction agreeing l l' generalizing i with
  | case1 e l e' l' same ih =>
      cases i with
      | zero => exact ⟨e, e', rfl, rfl, same⟩
      | succ i => simpa using ih (Nat.succ_lt_succ_iff.mp h)
  | case2 => exact absurd h (Nat.not_lt_zero i)
  | case3 => exact absurd h (Nat.not_lt_zero i)

/-- The comparison ends with one of the logs or at a difference. -/
theorem agreeing_ends (l l' : Log Op) :
    agreeing l l' = l.length ∨ agreeing l l' = l'.length ∨
      ∃ e e', l[agreeing l l']? = some e ∧ l'[agreeing l l']? = some e' ∧ e.term ≠ e'.term := by
  fun_induction agreeing l l' with
  | case1 e l e' l' same ih => simpa using ih
  | case2 e l e' l' differ => exact Or.inr (Or.inr ⟨e, e', rfl, rfl, differ⟩)
  | case3 l l' h =>
      cases l with
      | nil => exact Or.inl rfl
      | cons e l =>
          cases l' with
          | nil => exact Or.inr (Or.inl rfl)
          | cons e' l' => exact (h e l e' l' rfl rfl).elim

theorem agreeing_le (l l' : Log Op) : agreeing l l' ≤ l'.length := by
  fun_induction agreeing l l' with
  | case1 _ _ _ _ _ ih => exact Nat.succ_le_succ ih
  | case2 => exact Nat.zero_le _
  | case3 => exact Nat.zero_le _

/-- Logs that agree up to `n` agree as long as the terms are the same. -/
theorem Alike.agreeing_take (h : Alike old message) (agree : old.take n = message.take n) {i : ℕ}
    (hi : i ≤ agreeing (old.drop n) (message.drop n)) :
    old.take (n + i) = message.take (n + i) := by
  cases i with
  | zero => exact agree
  | succ i =>
      obtain ⟨e, e', mine, theirs, same⟩ := agreeing_term (Nat.lt_of_succ_le hi)
      rw [List.getElem?_drop] at mine theirs
      exact h _ e e' mine theirs same

/-- Where the comparison has stopped before the end of the message, the receiver has
not got the whole message. -/
theorem not_prefix_of_agreeing
    (behind : agreeing (old.drop n) (message.drop n) < (message.drop n).length) :
    ¬ message <+: old := by
  intro h
  have shorter := h.length_le
  rw [List.length_drop] at behind
  rcases agreeing_ends (old.drop n) (message.drop n) with
    ended | ended | ⟨e, e', mine, theirs, differ⟩
  · rw [List.length_drop] at ended
    omega
  · rw [List.length_drop] at ended
    omega
  · obtain ⟨rest, rfl⟩ := h
    rw [List.getElem?_drop] at mine theirs
    rw [List.getElem?_append_left (List.getElem?_eq_some_iff.mp theirs).1, theirs] at mine
    exact differ (congrArg Entry.term (Option.some.inj mine)).symm

/-- Merging from a position up to which the logs agree is merging with the whole log. -/
theorem Alike.mergeAt (h : Alike old message) (inside : n ≤ old.length)
    (agree : old.take n = message.take n) :
    Merged old (mergeAt old n (message.drop n)) message := by
  have reach : n ≤ message.length := by
    have := congrArg List.length agree
    rw [List.length_take, List.length_take] at this
    omega
  have same := h.agreeing_take agree le_rfl
  unfold LeaderLog.mergeAt
  split
  · next behind =>
    refine Or.inr ⟨not_prefix_of_agreeing behind, ?_⟩
    rw [same, List.drop_drop, List.take_append_drop]
  · next done =>
    refine Or.inl ⟨?_, rfl⟩
    have most := agreeing_le (old.drop n) (message.drop n)
    rw [List.length_drop] at done most
    rw [show n + agreeing (old.drop n) (message.drop n) = message.length by omega,
      List.take_length] at same
    exact same ▸ List.take_prefix _ _

end LeaderLog
