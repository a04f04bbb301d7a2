import Mathlib.Data.List.Basic

/-!
A sequence read field by field, each up to a separator that is dropped, until nothing is left.
A separator at the end does not begin another field.
-/

namespace Delimited
variable {α : Type*} [DecidableEq α] {sep : α}

def fields (sep : α) : List α → List (List α)
  | [] => []
  | x :: xs =>
      if x = sep then [] :: fields sep xs
      else
        match fields sep xs with
        | [] => [[x]]
        | field :: rest => (x :: field) :: rest

theorem fields_cons_of_ne {x : α} (ne : x ≠ sep) {xs field : List α} {rest : List (List α)}
    (h : fields sep xs = field :: rest) : fields sep (x :: xs) = (x :: field) :: rest := by
  rw [fields, if_neg ne, h]

theorem fields_append_cons {field : List α} (free : sep ∉ field) (xs : List α) :
    fields sep (field ++ sep :: xs) = field :: fields sep xs := by
  induction field with
  | nil => exact if_pos rfl
  | cons x field ih =>
      have ne : x ≠ sep := fun same => free (same ▸ List.mem_cons_self)
      have later : sep ∉ field := fun mem => free (List.mem_cons_of_mem x mem)
      exact fields_cons_of_ne ne (ih later)

theorem fields_of_notMem {field : List α} (free : sep ∉ field) (some : field ≠ []) :
    fields sep field = [field] := by
  induction field with
  | nil => exact absurd rfl some
  | cons x field ih =>
      have ne : x ≠ sep := fun same => free (same ▸ List.mem_cons_self)
      have later : sep ∉ field := fun mem => free (List.mem_cons_of_mem x mem)
      cases field with
      | nil => exact if_neg ne
      | cons y field => exact fields_cons_of_ne ne (ih later (List.cons_ne_nil _ _))

/-- Fields each of which is closed by a separator. -/
theorem fields_flatMap {xss : List (List α)} (free : ∀ xs ∈ xss, sep ∉ xs) :
    fields sep (xss.flatMap fun xs => xs ++ [sep]) = xss := by
  induction xss with
  | nil => rfl
  | cons xs xss ih =>
      have first := free xs List.mem_cons_self
      rw [List.flatMap_cons, List.append_assoc, List.singleton_append, fields_append_cons first,
        ih fun ys mem => free ys (List.mem_cons_of_mem _ mem)]

theorem notMem_of_mem_fields {xs field : List α} (mem : field ∈ fields sep xs) : sep ∉ field := by
  induction xs generalizing field with
  | nil => exact absurd mem List.not_mem_nil
  | cons x xs ih =>
      rw [fields] at mem
      split at mem
      · rcases List.mem_cons.mp mem with rfl | mem
        · exact List.not_mem_nil
        · exact ih mem
      · next ne =>
        split at mem
        · rw [List.mem_singleton.mp mem]
          exact fun here => ne (List.mem_singleton.mp here).symm
        · next first rest eq =>
          rw [eq] at ih
          rcases List.mem_cons.mp mem with rfl | mem
          · have later := ih List.mem_cons_self
            rintro (_ | ⟨_, inside⟩)
            · exact ne rfl
            · exact later inside
          · exact ih (List.mem_cons_of_mem _ mem)

theorem subset_of_mem_fields {xs field : List α} (mem : field ∈ fields sep xs) : field ⊆ xs := by
  induction xs generalizing field with
  | nil => exact absurd mem List.not_mem_nil
  | cons x xs ih =>
      rw [fields] at mem
      split at mem
      · rcases List.mem_cons.mp mem with rfl | mem
        · exact List.nil_subset _
        · exact List.subset_cons_of_subset x (ih mem)
      · split at mem
        · rw [List.mem_singleton.mp mem]
          exact List.cons_subset_cons x (List.nil_subset _)
        · next first rest eq =>
          rw [eq] at ih
          rcases List.mem_cons.mp mem with rfl | mem
          · exact List.cons_subset_cons x (ih List.mem_cons_self)
          · exact List.subset_cons_of_subset x (ih (List.mem_cons_of_mem _ mem))

end Delimited
