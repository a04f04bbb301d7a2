import OhMyDb.Lib.Records

/-!
A file that records of one size are appended to, as far as its whole records can be told. A
write that is cut short leaves a torn record at the end, and what is written behind one is out
of line.
-/

namespace Records
universe u v

/-- What is behind the whole records. -/
inductive Rear where
  | whole
  | torn
  | garbled
  deriving DecidableEq

structure RecordFile (T : Type u) where
  records : List T := []
  rear : Rear := .whole

namespace RecordFile
variable {T : Type u} {U : Type v} {f g : RecordFile T} {x : T} {n : ℕ}

def write (f : RecordFile T) (x : T) : RecordFile T :=
  match f.rear with
  | .whole => { f with records := f.records ++ [x] }
  | .torn | .garbled => { f with rear := .garbled }

/-- Some bytes of a record are written, but not all. -/
def tear (f : RecordFile T) : RecordFile T :=
  match f.rear with
  | .whole => { f with rear := .torn }
  | .torn | .garbled => { f with rear := .garbled }

/-- All but the first `n` records are cut off, where there are as many. -/
def truncate (f : RecordFile T) (n : ℕ) : RecordFile T :=
  if n ≤ f.records.length then { records := f.records.take n } else f

/-- What a reader finds that stops after `most` records. The first `whole` have been
transferred to it, and `blank` is in the place of the others; `junk` is what it makes of records
that are out of line. -/
def read (most whole : ℕ) (blank : ℕ → T) (junk : List T) (f : RecordFile T) : List T :=
  match f.rear with
  | .whole | .torn => (f.records.take most).mapIdx fun k x => if k < whole then x else blank k
  | .garbled => junk

/-- The records that have not been transferred read the same. -/
def Transferred (most whole : ℕ) (blank : ℕ → T) (f : RecordFile T) : Prop :=
  ∀ k (hk : k < (f.records.take most).length), whole ≤ k → blank k = (f.records.take most)[k]

instance [DecidableEq T] (most whole : ℕ) (blank : ℕ → T) (f : RecordFile T) :
    Decidable (f.Transferred most whole blank) :=
  inferInstanceAs (Decidable (∀ k (_ : k < _), _ → _ = _))

theorem read_eq {most whole : ℕ} {blank : ℕ → T} {junk : List T} (aligned : f.rear ≠ .garbled)
    (transferred : f.Transferred most whole blank) :
    f.read most whole blank junk = f.records.take most := by
  have all : ((f.records.take most).mapIdx fun k x => if k < whole then x else blank k) =
      f.records.take most := by
    refine List.ext_getElem List.length_mapIdx fun k _ hk => ?_
    rw [List.getElem_mapIdx]
    split
    · rfl
    · next missing => exact transferred k hk (Nat.le_of_not_lt missing)
  unfold read
  split
  · exact all
  · exact all
  · next garbled => exact absurd garbled aligned

/-- What is kept of each record. -/
def map (pack : T → U) (f : RecordFile T) : RecordFile U where
  records := f.records.map pack
  rear := f.rear

theorem map_write (pack : T → U) (f : RecordFile T) (x : T) :
    (f.write x).map pack = (f.map pack).write (pack x) := by
  obtain ⟨records, rear⟩ := f
  cases rear with
  | whole => simp only [map, write, List.map_append, List.map_cons, List.map_nil]
  | torn | garbled => rfl

theorem map_tear (pack : T → U) (f : RecordFile T) :
    f.tear.map pack = (f.map pack).tear := by
  obtain ⟨records, rear⟩ := f
  cases rear <;> rfl

theorem map_truncate (pack : T → U) (f : RecordFile T) (n : ℕ) :
    (f.truncate n).map pack = (f.map pack).truncate n := by
  simp only [truncate, map, List.length_map]
  split
  · rw [List.map_take]
  · rfl

theorem map_read (pack : T → U) (f : RecordFile T) (most whole : ℕ) (blank : ℕ → T)
    (junk : List T) : (f.read most whole blank junk).map pack =
      (f.map pack).read most whole (fun k => pack (blank k)) (junk.map pack) := by
  obtain ⟨records, rear⟩ := f
  cases rear with
  | garbled => rfl
  | whole | torn =>
      refine List.ext_getElem (by simp [read, map]) fun k _ _ => ?_
      simp only [read, map, List.getElem_map, List.getElem_mapIdx, List.getElem_take]
      split <;> rfl

section Bytes
variable {L : Layout T} {bytes tail : List UInt8}

/-- The bytes of the file. -/
def Denotes (L : Layout T) (f : RecordFile T) (bytes : List UInt8) : Prop :=
  match f.rear with
  | .whole => bytes = L.encodeAll f.records
  | .torn => ∃ tail, tail ≠ [] ∧ tail.length < L.size ∧ bytes = L.encodeAll f.records ++ tail
  | .garbled => ∃ rest, bytes = L.encodeAll f.records ++ rest

theorem Denotes.garbled (h : f.Denotes L bytes) (more : List UInt8) :
    { f with rear := .garbled : RecordFile T }.Denotes L (bytes ++ more) := by
  obtain ⟨records, rear⟩ := f
  cases rear with
  | whole => exact ⟨more, congrArg (· ++ more) h⟩
  | torn =>
      obtain ⟨tail, _, _, rfl⟩ := h
      exact ⟨tail ++ more, List.append_assoc _ _ _⟩
  | garbled =>
      obtain ⟨rest, rfl⟩ := h
      exact ⟨rest ++ more, List.append_assoc _ _ _⟩

theorem Denotes.write (h : f.Denotes L bytes) (x : T) :
    (f.write x).Denotes L (bytes ++ L.encode x) := by
  have garbled := h.garbled (L.encode x)
  obtain ⟨records, rear⟩ := f
  cases rear with
  | whole =>
      rw [show bytes = L.encodeAll records from h]
      change L.encodeAll records ++ L.encode x = L.encodeAll (records ++ [x])
      rw [L.encodeAll_append, L.encodeAll_cons, L.encodeAll_nil, List.append_nil]
  | torn | garbled => exact garbled

/-- A write that is cut short. -/
theorem Denotes.tear (h : f.Denotes L bytes) (part : tail <+: L.encode x) (some : tail ≠ [])
    (notAll : tail ≠ L.encode x) : f.tear.Denotes L (bytes ++ tail) := by
  have garbled := h.garbled tail
  obtain ⟨records, rear⟩ := f
  cases rear with
  | whole =>
      refine ⟨tail, some, ?_, congrArg (· ++ tail) h⟩
      rw [← L.encode_length x]
      exact lt_of_le_of_ne part.length_le fun e => notAll (part.eq_of_length e)
  | torn | garbled => exact garbled

/-- A file that is shorter stays as it is. -/
theorem Denotes.truncate (h : f.Denotes L bytes) (n : ℕ) :
    (f.truncate n).Denotes L (bytes.take (n * L.size)) := by
  obtain ⟨rest, same⟩ := h.garbled []
  rw [List.append_nil] at same
  rw [RecordFile.truncate]
  split
  · next inside =>
    have length : (L.encodeAll (f.records.take n)).length = n * L.size := by
      rw [L.encodeAll_length, List.length_take, Nat.min_eq_left inside]
    have front : bytes = L.encodeAll (f.records.take n) ++
        (L.encodeAll (f.records.drop n) ++ rest) := by
      rw [← List.append_assoc, ← L.encodeAll_append, List.take_append_drop]
      exact same
    rw [front]
    exact List.take_left' length
  · next beyond =>
    have room : (L.encodeAll f.records).length + L.size ≤ n * L.size := by
      rw [L.encodeAll_length, ← Nat.succ_mul]
      exact Nat.mul_le_mul_right _ (not_le.mp beyond)
    obtain ⟨records, rear⟩ := f
    cases rear with
    | whole =>
        rw [show bytes = L.encodeAll records from h]
        exact List.take_of_length_le ((Nat.le_add_right _ _).trans room)
    | torn =>
        obtain ⟨tail, some, cut, rfl⟩ := h
        refine ⟨tail, some, cut, List.take_of_length_le ?_⟩
        rw [List.length_append]
        exact (Nat.add_le_add_left cut.le _).trans room
    | garbled =>
        refine ⟨rest.take (n * L.size - (L.encodeAll records).length), ?_⟩
        rw [same, List.take_append, List.take_of_length_le ((Nat.le_add_right _ _).trans room)]

end Bytes

/-- A file that has come less far. -/
structure Behind (f g : RecordFile T) : Prop where
  records : f.records <+: g.records
  rear : f.rear = .garbled → g.rear = .garbled

theorem Behind.refl (f : RecordFile T) : f.Behind f := ⟨List.prefix_rfl, id⟩

theorem Behind.trans {e : RecordFile T} (h : e.Behind f) (h' : f.Behind g) : e.Behind g :=
  ⟨h.records.trans h'.records, fun garbled => h'.rear (h.rear garbled)⟩

theorem truncate_behind (f : RecordFile T) (n : ℕ) : (f.truncate n).Behind f := by
  unfold truncate
  split
  · exact ⟨List.take_prefix _ _, nofun⟩
  · exact .refl f

/-- Behind whole records all is written as it is. -/
theorem foldl_write (whole : f.rear = .whole) (xs : List T) :
    xs.foldl write f = { records := f.records ++ xs } := by
  induction xs generalizing f with
  | nil =>
      obtain ⟨records, rear⟩ := f
      obtain rfl : rear = .whole := whole
      rw [List.append_nil]
      rfl
  | cons x xs ih =>
      have first : f.write x = { records := f.records ++ [x] } := by rw [write, whole]
      rw [List.foldl_cons, first, ih rfl, List.append_assoc]
      rfl

/-- The file has the values that count as written, as far as a reader looks. -/
structure Mirrors (most : ℕ) (f : RecordFile T) (xs : List T) : Prop where
  aligned : f.rear ≠ .garbled
  enough : xs.length ≤ f.records.length
  same : f.records.take most = xs.take most

variable {most : ℕ} {xs ys : List T}

theorem Mirrors.truncate (h : f.Mirrors most xs) (inside : n ≤ xs.length) :
    (f.truncate n).Mirrors most (xs.take n) := by
  rw [RecordFile.truncate, if_pos (inside.trans h.enough)]
  refine ⟨nofun, ?_, ?_⟩
  · rw [List.length_take, List.length_take]
    exact min_le_min_left n h.enough
  · change (f.records.take n).take most = (xs.take n).take most
    rw [List.take_take, List.take_take, Nat.min_comm, ← List.take_take, h.same, List.take_take]

theorem Mirrors.append (h : f.Mirrors most xs) (whole : f.rear = .whole) (ys : List T) :
    (ys.foldl write f).Mirrors most (xs ++ ys) := by
  rw [foldl_write whole]
  refine ⟨nofun, ?_, ?_⟩
  · rw [List.length_append, List.length_append]
    exact Nat.add_le_add_right h.enough _
  · have lengths := congrArg List.length h.same
    rw [List.length_take, List.length_take] at lengths
    have enough := h.enough
    by_cases far : most ≤ xs.length
    · change (f.records ++ ys).take most = (xs ++ ys).take most
      rw [List.take_append_of_le_length far, List.take_append_of_le_length (far.trans enough)]
      exact h.same
    · have same := h.same
      rw [List.take_of_length_le (by omega), List.take_of_length_le (by omega)] at same
      rw [same]

end RecordFile
end Records
