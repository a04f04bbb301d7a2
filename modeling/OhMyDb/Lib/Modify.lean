import Mathlib.Data.List.Basic

/-!
Lists of records one of which is changed in place, and sections of a list that are
read one by one.
-/

namespace List
variable {α β : Type*}

theorem mem_or_eq_of_mem_modify {l : List α} {k : ℕ} {f : α → α} {x : α}
    (h : x ∈ l.modify k f) : x ∈ l ∨ ∃ t, l[k]? = some t ∧ x = f t := by
  obtain ⟨i, hi⟩ := mem_iff_getElem?.mp h
  by_cases e : k = i
  · subst e
    rw [getElem?_modify_eq] at hi
    obtain ⟨t, ht, rfl⟩ := Option.map_eq_some_iff.mp hi
    exact Or.inr ⟨t, ht, rfl⟩
  · rw [getElem?_modify_ne _ _ e] at hi
    exact Or.inl (mem_iff_getElem?.mpr ⟨i, hi⟩)

theorem mem_modify_or_eq {l : List α} {k : ℕ} {x y : α} (hx : x ∈ l) (hy : l[k]? = some y)
    (f : α → α) : x ∈ l.modify k f ∨ (x = y ∧ f x ∈ l.modify k f) := by
  obtain ⟨j, hj⟩ := mem_iff_getElem?.mp hx
  by_cases e : k = j
  · subst e
    refine Or.inr ⟨Option.some.inj (hj.symm.trans hy), mem_iff_getElem?.mpr ⟨k, ?_⟩⟩
    rw [getElem?_modify_eq, hj]
    rfl
  · exact Or.inl (mem_iff_getElem?.mpr ⟨j, (getElem?_modify_ne f _ e).trans hj⟩)

theorem modify_of_eq {l : List α} {k : ℕ} {f : α → α} {x : α} (hx : l[k]? = some x)
    (h : f x = x) : l.modify k f = l := by
  refine ext_getElem? fun i => ?_
  by_cases e : k = i
  · subst e
    rw [getElem?_modify_eq, hx]
    exact congrArg some h
  · rw [getElem?_modify_ne _ _ e]

/-- What a change leaves alone can be read off before it. -/
theorem map_modify_of_eq {l : List α} {k : ℕ} {f : α → α} {g : α → β}
    (h : ∀ t, g (f t) = g t) : (l.modify k f).map g = l.map g := by
  induction l generalizing k with
  | nil => simp
  | cons x l ih => cases k <;> simp [h, ih]

theorem map_modify_congr {l : List α} {k : ℕ} {f f' : α → α} {g : α → β}
    (h : ∀ t, g (f t) = g (f' t)) : (l.modify k f).map g = (l.modify k f').map g := by
  induction l generalizing k with
  | nil => simp
  | cons x l ih => cases k <;> simp [h, ih]

theorem countP_modify_of_eq {l : List α} {k : ℕ} {f : α → α} {p : α → Bool} {t : α}
    (ht : l[k]? = some t) (h : p (f t) = p t) : (l.modify k f).countP p = l.countP p := by
  induction l generalizing k with
  | nil => simp
  | cons x l ih =>
      cases k with
      | zero =>
          obtain rfl : x = t := by simpa using ht
          simp [countP_cons, h]
      | succ k => simp [countP_cons, ih (by simpa using ht)]

theorem countP_modify_succ {l : List α} {k : ℕ} {f : α → α} {p : α → Bool} {t : α}
    (ht : l[k]? = some t) (before : p t = false) (after : p (f t) = true) :
    (l.modify k f).countP p = l.countP p + 1 := by
  induction l generalizing k with
  | nil => simp at ht
  | cons x l ih =>
      cases k with
      | zero =>
          obtain rfl : x = t := by simpa using ht
          simp [before, after]
      | succ k =>
          simp only [modify_succ_cons, countP_cons, ih (by simpa using ht)]
          omega

theorem countP_le_countP_modify {l : List α} {k : ℕ} {f : α → α} {p : α → Bool} {t : α}
    (ht : l[k]? = some t) (h : p t = true → p (f t) = true) :
    l.countP p ≤ (l.modify k f).countP p := by
  cases before : p t with
  | true => exact (countP_modify_of_eq ht ((h before).trans before.symm)) ▸ Nat.le_refl _
  | false =>
      cases after : p (f t) with
      | true => exact (countP_modify_succ ht before after).symm ▸ Nat.le_succ _
      | false => exact (countP_modify_of_eq ht (after.trans before.symm)) ▸ Nat.le_refl _

theorem getElem?_concat_cases {l : List α} {a x : α} {n : ℕ} (h : (l ++ [a])[n]? = some x) :
    l[n]? = some x ∨ n = l.length ∧ x = a := by
  by_cases old : n < l.length
  · rw [getElem?_append_left old] at h
    exact Or.inl h
  · rw [getElem?_append_right (Nat.le_of_not_lt old)] at h
    obtain ⟨lt, rfl⟩ := getElem?_eq_some_iff.mp h
    rw [length_singleton] at lt
    exact Or.inr ⟨by omega, by simp⟩

theorem map_set_of_eq {l : List α} {k : ℕ} {f : α → β} {x y : α}
    (hx : l[k]? = some x) (h : f y = f x) : (l.set k y).map f = l.map f := by
  obtain ⟨lt, rfl⟩ := getElem?_eq_some_iff.mp hx
  refine ext_getElem (by simp) fun i hi _ => ?_
  by_cases e : k = i
  · subst e
    simp [h]
  · simp [e]

theorem filterMap_set_of_eq {l : List α} {k : ℕ} {f : α → Option β} {x y : α}
    (hx : l[k]? = some x) (h : f y = f x) : (l.set k y).filterMap f = l.filterMap f := by
  induction l generalizing k with
  | nil => simp
  | cons z l ih =>
      cases k with
      | zero =>
          obtain rfl : z = x := by simpa using hx
          simp [filterMap_cons, h]
      | succ k => simp [filterMap_cons, ih (by simpa using hx)]

/-- A partial inverse of `g` picks out the values of `g`. -/
theorem mem_filterMap_of_eq_iff {l : List α} {f : α → Option β} {g : β → α} {b : β}
    (inverse : ∀ a b, f a = some b ↔ a = g b) : b ∈ l.filterMap f ↔ g b ∈ l := by
  simp only [List.mem_filterMap, inverse, exists_eq_right]

theorem filterMap_eraseIdx_of_none {l : List α} {k : ℕ} {f : α → Option β} {x : α}
    (hx : l[k]? = some x) (none : f x = none) :
    (l.eraseIdx k).filterMap f = l.filterMap f := by
  induction l generalizing k with
  | nil => simp
  | cons z l ih =>
      cases k with
      | zero =>
          obtain rfl : z = x := by simpa using hx
          simp [none]
      | succ k => simp [filterMap_cons, ih (by simpa using hx)]

theorem filterMap_set_of_none {l : List α} {k : ℕ} {f : α → Option β} {y : α} (none : f y = none) :
    (l.set k y).filterMap f = (l.eraseIdx k).filterMap f := by
  induction l generalizing k with
  | nil => simp
  | cons z l ih => cases k <;> simp [filterMap_cons, none, ih]

theorem filterMap_set_perm {l : List α} {k : ℕ} {f : α → Option β} {x y : α} {b : β}
    (hx : l[k]? = some x) (before : f x = some b) (after : f y = none) :
    (l.filterMap f).Perm (b :: (l.set k y).filterMap f) := by
  induction l generalizing k with
  | nil => simp at hx
  | cons z l ih =>
      cases k with
      | zero =>
          obtain rfl : z = x := by simpa using hx
          simp [before, after]
      | succ k =>
          have later := ih (by simpa using hx)
          rw [set_cons_succ, filterMap_cons, filterMap_cons]
          cases f z with
          | none => exact later
          | some c => exact (later.cons c).trans (.swap b c _)

theorem filterMap_range_getElem? (l : List α) (a m : ℕ) :
    (range m).filterMap (fun j => l[a + j]?) = (l.drop a).take m := by
  induction m with
  | zero => simp
  | succ m ih =>
      rw [range_succ, filterMap_append, ih, take_add_one, getElem?_drop, filterMap_cons,
        filterMap_nil]
      cases l[a + m]? <;> rfl

end List
