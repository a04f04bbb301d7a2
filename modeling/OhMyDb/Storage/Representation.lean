import OhMyDb.Model.RaftState
import OhMyDb.Storage.Recovery

/-!
The vector, the number of its persisted items and the file keep in step over any
sequence of operations and restarts, when byte offsets are unbounded integers: the file
holds the persisted items and nothing else.
-/

namespace OhMyDb
open Records (Layout)

namespace Stripping
variable {T H : Type} (S : Stripping T H)

theorem preproc_preproc (x : T) : S.preproc (S.preproc x) = S.preproc x :=
  S.preproc_of_none _ (S.promiseHandle_preproc x)

@[simp] theorem map_preproc (xs : List T) :
    (xs.map S.preproc).map S.preproc = xs.map S.preproc := by
  rw [List.map_map]
  exact List.map_congr_left fun x _ => S.preproc_preproc x

end Stripping

/-- The `preproc_` of the log. -/
def LogEntry.stripping : Stripping LogEntry Handle where
  promiseHandle e := e.op.promiseHandle
  preproc e := { e with op := e.op.withoutPromise }
  promiseHandle_preproc _ := rfl
  preproc_of_none e none := by
    obtain ⟨term, command, promiseHandle⟩ := e
    cases none
    rfl

namespace PersistentVector
variable {T H : Type} (L : Layout T)

/-- The loop over an unbounded offset reads every whole record. -/
theorem readWhole_encodeAll (xs : List T) (tail : List UInt8) (torn : tail.length < L.size) :
    readWhole L (L.encodeAll xs ++ tail) = xs := by
  have length : (L.encodeAll xs ++ tail).length = xs.length * L.size + tail.length := by
    rw [List.length_append, L.encodeAll_length]
  refine L.walk_eq xs tail (fun k hk => ?_) ?_ ?_
  · have := Nat.mul_le_mul_right L.size (Nat.succ_le_of_lt hk)
    rw [Nat.succ_mul] at this
    simp only [length, decide_eq_true_eq]
    omega
  · simp only [length, decide_eq_false_iff_not]
    omega
  · have := Nat.le_mul_of_pos_right xs.length L.size_pos
    omega

/-- As long as the file is not longer than an `int` can walk through, and `pread` transfers
its records, the code's loop reads what the unbounded one does. -/
theorem readFile_eq_readWhole (xs : List T) (tail : List UInt8) {transferred : ℕ}
    (torn : tail.length < L.size) (fits : (xs.length - 1) * L.size < 2 ^ 31)
    (all : xs.length * L.size ≤ transferred)
    (short : xs.length * L.size + tail.length < 2 ^ 63) :
    readFile L transferred (L.encodeAll xs ++ tail) = readWhole L (L.encodeAll xs ++ tail) := by
  rw [readFile_encodeAll L xs tail transferred torn short, readWhole_encodeAll L xs tail torn,
    List.take_of_length_le ((le_readable L).mpr fits)]
  refine List.ext_getElem List.length_mapIdx fun k _ hk => ?_
  rw [List.getElem_mapIdx, if_pos ((Nat.mul_le_mul_right _ hk).trans all)]

/-- Where the next byte is written: at the end of the file, opened either way. -/
def AtEnd (fd : Descriptor) (length : ℕ) : Prop :=
  fd = .appending ∨ fd = .writing length

theorem write_atEnd {fd : Descriptor} {bytes : List UInt8} (atEnd : AtEnd fd bytes.length)
    (new : List UInt8) : AtEnd (Disk.write new (fd, some bytes)).1 (bytes ++ new).length ∧
      (Disk.write new (fd, some bytes)).2 = some (bytes ++ new) := by
  rcases atEnd with rfl | rfl
  · exact ⟨.inl rfl, rfl⟩
  · refine ⟨.inr (by simp [Disk.write]), ?_⟩
    simp [Disk.write]

theorem foldl_write_atEnd (xs : List T) {fd : Descriptor} {bytes : List UInt8}
    (atEnd : AtEnd fd bytes.length) :
    AtEnd (xs.foldl (fun p x => Disk.write (L.encode x) p) (fd, some bytes)).1
        (bytes ++ L.encodeAll xs).length ∧
      (xs.foldl (fun p x => Disk.write (L.encode x) p) (fd, some bytes)).2 =
        some (bytes ++ L.encodeAll xs) := by
  induction xs generalizing fd bytes with
  | nil => simpa using atEnd
  | cons x xs ih =>
      obtain ⟨next, disk⟩ := write_atEnd atEnd (L.encode x)
      rw [List.foldl_cons, L.encodeAll_cons, ← List.append_assoc,
        show Disk.write (L.encode x) (fd, some bytes) =
          ((Disk.write (L.encode x) (fd, some bytes)).1, some (bytes ++ L.encode x)) from
            Prod.ext rfl disk]
      exact ih next

variable (S : Stripping T H)

/-- The records of the persisted items. -/
def records (v : PersistentVector T) : List T :=
  (v.items.take v.persistedItems).map S.preproc

/-- The vector, its count and its file are in step. -/
structure InStep (v : PersistentVector T) (d : Disk) : Prop where
  bound : v.persistedItems ≤ v.items.length
  file : d = some (L.encodeAll (v.records S))
  fd : AtEnd v.fd (v.persistedItems * L.size)
  preproc : v.preproc = S.preproc

variable {L S} {v : PersistentVector T} {d : Disk}

theorem InStep.records_length (h : InStep L S v d) : (v.records S).length = v.persistedItems := by
  rw [records, List.length_map, List.length_take, Nat.min_eq_left h.bound]

theorem InStep.pushBack (h : InStep L S v d) (x : T) : InStep L S (v.pushBack x) d where
  bound := by simpa [PersistentVector.pushBack] using Nat.le_succ_of_le h.bound
  file := by
    rw [records, PersistentVector.pushBack, List.take_append_of_le_length h.bound]
    exact h.file
  fd := h.fd
  preproc := h.preproc

variable [Inhabited T]

theorem resize_of_lt (n : ℕ) (h : v.persistedItems < n) :
    v.resize L d n =
      ({ v with items := v.items.take n ++ List.replicate (n - v.items.length) default }, d) := by
  rw [resize, if_neg (Nat.not_le_of_lt h)]

theorem InStep.resize (h : InStep L S v d) (n : ℕ) :
    InStep L S (v.resize L d n).1 (v.resize L d n).2 := by
  have bound := h.bound
  by_cases le : n ≤ v.persistedItems
  · have kept : v.items.take n ++ List.replicate (n - v.items.length) default = v.items.take n := by
      rw [Nat.sub_eq_zero_of_le (le.trans bound)]
      simp
    have cut : d.truncate v.fd (n * L.size) =
        some (L.encodeAll ((v.items.take n).map S.preproc)) := by
      have split : v.records S = (v.items.take n).map S.preproc ++
          ((v.items.take v.persistedItems).drop n).map S.preproc := by
        rw [records, ← List.map_append, ← Nat.min_eq_left le, ← List.take_take, Nat.min_eq_left le,
          List.take_append_drop]
      have length : (L.encodeAll ((v.items.take n).map S.preproc)).length = n * L.size := by
        rw [L.encodeAll_length, List.length_map, List.length_take,
          Nat.min_eq_left (le.trans bound)]
      have whole : n * L.size ≤ (L.encodeAll (v.records S)).length := by
        rw [L.encodeAll_length, h.records_length]
        exact Nat.mul_le_mul_right _ le
      have shorter : (L.encodeAll (v.records S)).take (n * L.size) ++
          List.replicate (n * L.size - (L.encodeAll (v.records S)).length) 0 =
            L.encodeAll ((v.items.take n).map S.preproc) := by
        rw [Nat.sub_eq_zero_of_le whole, List.replicate_zero, List.append_nil, split,
          L.encodeAll_append, List.take_left' length]
      rw [h.file]
      rcases h.fd with fd | fd <;> rw [fd] <;> exact congrArg some shorter
    rw [PersistentVector.resize, if_pos le, kept, cut]
    exact ⟨by simpa using le.trans bound, by simp [records, Disk.create, List.take_take],
      .inl rfl, h.preproc⟩
  · rw [resize_of_lt n (by omega)]
    refine ⟨?_, ?_, h.fd, h.preproc⟩
    · simp only [List.length_append, List.length_take, List.length_replicate]
      omega
    · have same : (v.items.take n ++ List.replicate (n - v.items.length) default).take
          v.persistedItems = v.items.take v.persistedItems := by
        rw [List.take_append_of_le_length (by rw [List.length_take]; omega), List.take_take,
          Nat.min_eq_left (by omega)]
      rw [records, same]
      exact h.file

theorem InStep.persist (h : InStep L S v d) : InStep L S (v.persist L d).1 (v.persist L d).2 ∧
    (v.persist L d).1.items = v.items ∧ (v.persist L d).1.persistedItems = v.items.length := by
  have bound := h.bound
  unfold PersistentVector.persist
  split
  · next all => exact ⟨h, rfl, all.symm⟩
  · next fewer =>
    have kept : v.resize L d v.items.length = (v, d) := by
      rw [resize_of_lt _ (by omega)]
      simp
    have atEnd : AtEnd v.fd (L.encodeAll (v.records S)).length := by
      rw [L.encodeAll_length, h.records_length]
      exact h.fd
    obtain ⟨fd, disk⟩ := foldl_write_atEnd L
      ((v.items.drop v.persistedItems).map S.preproc) atEnd
    have all : v.records S ++ (v.items.drop v.persistedItems).map S.preproc =
        v.items.map S.preproc := by
      rw [records, ← List.map_append, List.take_append_drop]
    rw [← L.encodeAll_append, all] at fd disk
    rw [L.encodeAll_length, List.length_map] at fd
    simp only [kept]
    simp only [h.preproc, h.file]
    exact ⟨⟨Nat.le_refl _, by simpa [records] using disk, fd, rfl⟩, trivial, trivial⟩

end PersistentVector

namespace LogFileOp
open PersistentVector
variable {T H : Type} [Inhabited T] (L : Layout T) (S : Stripping T H)

/-- A process that bootstraps has exactly the records of the file. -/
theorem setup_written (xs : List T) :
    InStep L S (setup L S (some (L.encodeAll (xs.map S.preproc))) true).1
        (setup L S (some (L.encodeAll (xs.map S.preproc))) true).2 ∧
      (setup L S (some (L.encodeAll (xs.map S.preproc))) true).1.items = xs.map S.preproc := by
  have read := readWhole_encodeAll L (xs.map S.preproc) [] L.size_pos
  rw [List.append_nil] at read
  obtain ⟨items, same, disk⟩ := resize_uninitialised L
    (v := { preproc := S.preproc, items := xs.map S.preproc }) rfl
    (L.encodeAll (xs.map S.preproc))
  simp only [setup, setupWith, bootstrapWith, Bool.false_eq_true, if_false, if_true,
    List.nil_append, read]
  refine ⟨⟨Nat.le_refl _, ?_, .inl rfl, same⟩, items⟩
  rw [disk, records, items, List.take_length, S.map_preproc]
  rfl

theorem start_inStep (s : LogFileStart T) : InStep L S (start L S s).1 (start L S s).2 := by
  cases s with
  | fresh d => exact ⟨Nat.le_refl _, rfl, .inr (by simp [start, setup, setupWith]), rfl⟩
  | absent => exact ⟨Nat.le_refl _, rfl, .inl rfl, rfl⟩
  | written xs => exact (setup_written L S xs).1

theorem run_inStep {p : PersistentVector T × Disk} (h : InStep L S p.1 p.2) (op : LogFileOp T) :
    InStep L S (run L S p op).1 (run L S p op).2 := by
  cases op with
  | pushBack x => exact h.pushBack x
  | resize n => exact h.resize n
  | persist => exact h.persist.1
  | reboot =>
      rw [run, h.file, records]
      exact (setup_written L S _).1

/-- What the file is for, at every point after `setup`. -/
structure Represents (v : PersistentVector T) (d : Disk) : Prop where
  bound : v.persistedItems ≤ v.items.length
  file : d = some (L.encodeAll ((v.items.take v.persistedItems).map S.preproc))
  persisted : (v.persist L d).1.items = v.items ∧
    (v.persist L d).2 = some (L.encodeAll (v.items.map S.preproc))
  bootstrapped : (setup L S d true).1.items = (v.items.take v.persistedItems).map S.preproc
  stripped : ∀ x ∈ (setup L S d true).1.items, S.promiseHandle x = none

/-- After any operations, restarts among them, the file is the persisted part of the
vector, `persist` makes that all of it, and a bootstrap gets it back without promises. -/
theorem represents (s : LogFileStart T) (ops : List (LogFileOp T)) :
    Represents L S (ops.foldl (run L S) (start L S s)).1
      (ops.foldl (run L S) (start L S s)).2 := by
  have h : InStep L S (ops.foldl (run L S) (start L S s)).1
      (ops.foldl (run L S) (start L S s)).2 := by
    induction ops using List.reverseRecOn with
    | nil => exact start_inStep L S s
    | append_singleton ops op ih =>
        rw [List.foldl_append]
        exact run_inStep L S ih op
  generalize ops.foldl (run L S) (start L S s) = p at h
  have again : (setup L S p.2 true).1.items = p.1.records S := by
    rw [h.file, records]
    exact (setup_written L S _).2
  obtain ⟨after, items, all⟩ := h.persist
  refine ⟨h.bound, h.file, ⟨items, ?_⟩, again, fun x hx => ?_⟩
  · rw [after.file, records, items, all, List.take_length]
  · rw [again] at hx
    obtain ⟨y, _, rfl⟩ := List.mem_map.mp hx
    exact S.promiseHandle_preproc y

end LogFileOp
end OhMyDb
