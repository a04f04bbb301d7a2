import OhMyDb.Storage.Bootstrap
import Mathlib.Data.List.Induction

/-!
What a restart finds. `bootstrap` reads whole records and leaves a torn one behind
them in the file: the `resize` that is to cut it off runs before `fd` is opened and
before `persistedItems_` is set. What is appended afterwards is misaligned. The
`int` that walks through the file also ends the loop at 2 GiB, and the records that
`pread` has not transferred are read from zeros.
-/

namespace OhMyDb
open Records (Layout)

namespace PersistentVector
variable {T : Type} (L : Layout T) {preproc : T → T} {v : PersistentVector T} {d : Disk}
  {base bytes : List UInt8} {old done pending : List T}

/-- The vector between two starts: `base` is what the file held at the first, `old`
what was read from it, `done` has been persisted since and `pending` has not. -/
structure Holds (preproc : T → T) (base : List UInt8) (old done pending : List T)
    (v : PersistentVector T) (d : Disk) : Prop where
  items : v.items = old ++ (done ++ pending)
  persistedItems : v.persistedItems = old.length + done.length
  fd : v.fd = .appending
  applies : v.preproc = preproc
  disk : d = some (base ++ L.encodeAll (done.map preproc))

variable [Inhabited T]

/-- Before `fd` is opened, a `resize` to the present size has no effect. -/
theorem resize_uninitialised (fd : v.fd = .uninitialised) (bytes : List UInt8) :
    (v.resize L (some bytes) v.items.length).1.items = v.items ∧
      (v.resize L (some bytes) v.items.length).1.preproc = v.preproc ∧
      (v.resize L (some bytes) v.items.length).2 = some bytes := by
  unfold resize
  rw [fd]
  split <;> simp [Disk.truncate, Disk.create]

/-- A start reads the file and leaves it as it is. -/
theorem reboot_holds (preproc : T → T) (bytes : List UInt8) (transferred : ℕ) :
    Holds L preproc bytes (readFile L transferred bytes) [] []
      (reboot L transferred (some bytes) preproc).1
      (reboot L transferred (some bytes) preproc).2 := by
  obtain ⟨items, same, disk⟩ := resize_uninitialised L
    (v := { preproc := preproc, items := readFile L transferred bytes }) rfl bytes
  simp only [reboot, setupWith, bootstrapWith, Bool.false_eq_true, if_false, if_true,
    List.nil_append]
  exact ⟨by simpa using items, by simp [items], rfl, same, by simp [disk, Disk.create]⟩

omit [Inhabited T] in
theorem foldl_write (xs : List T) (bytes : List UInt8) :
    xs.foldl (fun p x => Disk.write (L.encode x) p) (.appending, some bytes) =
      (.appending, some (bytes ++ L.encodeAll xs)) := by
  induction xs generalizing bytes with
  | nil => simp
  | cons x xs ih =>
      rw [List.foldl_cons]
      refine (ih (bytes ++ L.encode x)).trans ?_
      rw [L.encodeAll_cons, List.append_assoc]

omit [Inhabited T] in
theorem Holds.pushBack (h : Holds L preproc base old done pending v d) (x : T) :
    Holds L preproc base old done (pending ++ [x]) (v.pushBack x) d where
  items := by simp [PersistentVector.pushBack, h.items]
  persistedItems := h.persistedItems
  fd := h.fd
  applies := h.applies
  disk := h.disk

theorem Holds.persist (h : Holds L preproc base old done pending v d) :
    Holds L preproc base old (done ++ pending) [] (v.persist L d).1 (v.persist L d).2 := by
  have items := h.items
  have persistedItems := h.persistedItems
  have length : v.items.length = old.length + done.length + pending.length := by
    rw [items]
    simp [Nat.add_assoc]
  unfold PersistentVector.persist
  split
  · next all =>
    have none : pending = [] := List.length_eq_zero_iff.mp (by omega)
    subst none
    exact ⟨by simpa using items, by simpa using persistedItems, h.fd, h.applies,
      by simpa using h.disk⟩
  · next fewer =>
    have kept : v.resize L d v.items.length = (v, d) := by
      unfold resize
      rw [if_neg (by omega)]
      simp
    have rest : v.items.drop v.persistedItems = pending := by
      rw [items, persistedItems, ← List.append_assoc]
      exact List.drop_left' (by simp)
    simp only [kept]
    simp only [rest, h.fd, h.applies, h.disk, foldl_write]
    exact ⟨by simpa using items, by simp [length, Nat.add_assoc], rfl, rfl, by simp⟩

end PersistentVector

namespace VectorOp
variable {T : Type} [Inhabited T] (L : Layout T)

/-- What a sequence of operations has persisted, and what it has left unpersisted. -/
def effect (ops : List (VectorOp T)) : List T × List T :=
  ops.foldl (fun p op => match op with
    | .pushBack x => (p.1, p.2 ++ [x])
    | .persist => (p.1 ++ p.2, [])) ([], [])

def persisted (ops : List (VectorOp T)) : List T :=
  (effect ops).1

theorem run_holds (preproc : T → T) (bytes : List UInt8) (transferred : ℕ)
    (ops : List (VectorOp T)) :
    PersistentVector.Holds L preproc bytes
      (PersistentVector.readFile L transferred bytes) (effect ops).1 (effect ops).2
      (ops.foldl (VectorOp.run L) (PersistentVector.reboot L transferred (some bytes) preproc)).1
      (ops.foldl (VectorOp.run L)
        (PersistentVector.reboot L transferred (some bytes) preproc)).2 := by
  induction ops using List.reverseRecOn with
  | nil => exact PersistentVector.reboot_holds L preproc bytes transferred
  | append_singleton ops op ih =>
      rw [List.foldl_append, effect, List.foldl_append, ← effect]
      cases op with
      | pushBack x => exact ih.pushBack L x
      | persist => exact ih.persist L

end VectorOp

namespace PersistentVector
variable {T : Type} [Inhabited T] (L : Layout T)

/-- What recovery promises for a file of whole records and a torn one, or whatever `tail`
is behind them: the vector is the whole records, the file is cut back to them, and the next
start after any operations finds them and what has been persisted since. `pread` transfers
`first` and `next` bytes at the two starts. -/
structure Recovers (preproc : T → T) (records : List T) (tail : List UInt8)
    (ops : List (VectorOp T)) (first next : ℕ) : Prop where
  items : (reboot L first (some (L.encodeAll records ++ tail)) preproc).1.items = records
  file : (reboot L first (some (L.encodeAll records ++ tail)) preproc).2 =
    some (L.encodeAll records)
  again : (reboot L next (ops.foldl (VectorOp.run L)
      (reboot L first (some (L.encodeAll records ++ tail)) preproc)).2 preproc).1.items =
    records ++ (VectorOp.persisted ops).map preproc

/-- The records that `pread` has not transferred in full read the same from the zeros in
their place. -/
def Transfers (transferred : ℕ) (xs : List T) : Prop :=
  ∀ k (hk : k < xs.length), transferred < (k + 1) * L.size →
    L.read (buffer (L.encodeAll xs) transferred) (k * L.size) = xs[k]

omit [Inhabited T] in
theorem Transfers.of_le {transferred : ℕ} {xs : List T} (all : xs.length * L.size ≤ transferred) :
    Transfers L transferred xs := by
  intro k hk short
  have inside : (k + 1) * L.size ≤ xs.length * L.size := Nat.mul_le_mul_right _ hk
  omega

omit [Inhabited T] in
theorem readFile_encodeAll (xs : List T) (tail : List UInt8) (transferred : ℕ)
    (torn : tail.length < L.size) (short : xs.length * L.size + tail.length < 2 ^ 63) :
    readFile L transferred (L.encodeAll xs ++ tail) =
      (xs.take (readable L.size)).mapIdx fun k x =>
        if (k + 1) * L.size ≤ transferred then x
        else L.read (buffer (L.encodeAll xs ++ tail) transferred) (k * L.size) := by
  have length : (L.encodeAll xs ++ tail).length = xs.length * L.size + tail.length := by
    rw [List.length_append, L.encodeAll_length]
  have whole : (xs.length * L.size + tail.length) / L.size = xs.length :=
    Nat.div_eq_of_lt_le (Nat.le_add_right _ _) (by rw [Nat.succ_mul]; omega)
  rw [readFile, readBuffer_eq L (length ▸ short) (Nat.le_succ _), length, whole]
  refine List.ext_getElem (by simp [Nat.min_comm]) fun k hk _ => ?_
  rw [List.length_map, List.length_range] at hk
  have inside : k < xs.length := hk.trans_le (Nat.min_le_left _ _)
  rw [List.getElem_map, List.getElem_range, List.getElem_mapIdx, List.getElem_take]
  split
  · next there =>
    have within : (k + 1) * L.size ≤ (L.encodeAll xs ++ tail).length := by
      rw [length]
      exact (Nat.mul_le_mul_right _ inside).trans (Nat.le_add_right _ _)
    have plain := L.read_encodeAll xs [] tail inside
    simp only [List.nil_append, List.length_nil, Nat.zero_add] at plain
    rw [read_buffer L there within, plain]
  · rfl

omit [Inhabited T] in
/-- Nothing torn: all is read just when an `int` gets to the last record, and what is not
transferred reads the same. -/
theorem readFile_eq_iff (xs : List T) (transferred : ℕ) (short : xs.length * L.size < 2 ^ 63) :
    readFile L transferred (L.encodeAll xs) = xs ↔
      xs.length ≤ readable L.size ∧ Transfers L transferred xs := by
  have read := readFile_encodeAll L xs [] transferred L.size_pos (by simpa using short)
  rw [List.append_nil] at read
  rw [read]
  constructor
  · intro same
    have count := congrArg List.length same
    rw [List.length_mapIdx, List.length_take] at count
    refine ⟨by omega, fun k hk missing => ?_⟩
    have here := congrArg (fun ys => ys[k]?) same
    simp only [List.getElem?_mapIdx, List.getElem?_take_of_lt (show k < readable L.size by omega),
      List.getElem?_eq_getElem hk, Option.map_some, if_neg (Nat.not_le.mpr missing)] at here
    exact Option.some.inj here
  · rintro ⟨all, zeros⟩
    rw [List.take_of_length_le all]
    refine List.ext_getElem List.length_mapIdx fun k _ hk => ?_
    rw [List.getElem_mapIdx]
    split
    · rfl
    · next missing => exact zeros k hk (Nat.not_le.mp missing)

/-- Recovery keeps its promise just when nothing is torn off, the file does not grow past
what an `int` can walk through, and `pread` transfers all that does not read as zeros. -/
theorem recovers_iff (preproc : T → T) (records : List T) (tail : List UInt8)
    (ops : List (VectorOp T)) (first next : ℕ)
    (short : (records.length + (VectorOp.persisted ops).length) * L.size + tail.length < 2 ^ 63) :
    Recovers L preproc records tail ops first next ↔ tail = [] ∧
      (records.length + (VectorOp.persisted ops).length - 1) * L.size < 2 ^ 31 ∧
      Transfers L first records ∧
      Transfers L next (records ++ (VectorOp.persisted ops).map preproc) := by
  have start := reboot_holds L preproc (L.encodeAll records ++ tail) first
  have held := VectorOp.run_holds L preproc (L.encodeAll records ++ tail) first ops
  rw [← VectorOp.persisted] at held
  have again := reboot_holds L preproc (L.encodeAll records ++ tail ++
    L.encodeAll ((VectorOp.persisted ops).map preproc)) next
  rw [← held.disk] at again
  have count : (records ++ (VectorOp.persisted ops).map preproc).length =
      records.length + (VectorOp.persisted ops).length := by
    rw [List.length_append, List.length_map]
  rw [Nat.add_mul] at short
  have one := readFile_eq_iff L records first (by omega)
  have two := readFile_eq_iff L (records ++ (VectorOp.persisted ops).map preproc) next
    (by rw [count, Nat.add_mul]; omega)
  rw [count, L.encodeAll_append] at two
  rw [← le_readable]
  -- without a torn tail each start finds the records as they have been written
  have items (none : tail = []) : (reboot L first (some (L.encodeAll records ++ tail))
      preproc).1.items = readFile L first (L.encodeAll records) := by
    rw [start.items, none, List.append_nil, List.append_nil, List.append_nil]
  have later (none : tail = []) : (reboot L next (ops.foldl (VectorOp.run L)
      (reboot L first (some (L.encodeAll records ++ tail)) preproc)).2 preproc).1.items =
        readFile L next
          (L.encodeAll records ++ L.encodeAll ((VectorOp.persisted ops).map preproc)) := by
    rw [again.items, none, List.append_nil, List.append_nil, List.append_nil]
  constructor
  · intro recovers
    have none : tail = [] := by simpa using start.disk.symm.trans recovers.file
    obtain ⟨_, all⟩ := one.mp ((items none).symm.trans recovers.items)
    obtain ⟨fits, more⟩ := two.mp ((later none).symm.trans recovers.again)
    exact ⟨none, fits, all, more⟩
  · rintro ⟨none, fits, all, more⟩
    refine ⟨(items none).trans (one.mpr ⟨by omega, all⟩), ?_,
      (later none).trans (two.mpr ⟨fits, more⟩)⟩
    rw [start.disk, none, List.map_nil, L.encodeAll_nil, List.append_nil, List.append_nil]

/-- One record, nothing torn, one more record persisted. -/
theorem recovers_iff_pair :
    Recovers pairLayout (fun x => x) [(1, 2)] [] [.pushBack (3, 4), .persist] 2 4 :=
  (recovers_iff pairLayout (fun x => x) [(1, 2)] [] [.pushBack (3, 4), .persist] 2 4
    (by decide)).mpr ⟨rfl, by decide, .of_le _ (by decide), .of_le _ (by decide)⟩

/-- The first byte of a torn record stays in the file, though `pread` transfers everything. -/
theorem not_recovers : ¬ ∀ (L : Layout (UInt8 × UInt8)) (preproc : UInt8 × UInt8 → UInt8 × UInt8)
    (records : List (UInt8 × UInt8)) (tail : List UInt8) (ops : List (VectorOp (UInt8 × UInt8)))
    (first next : ℕ), (∃ x, tail <+: L.encode x ∧ tail ≠ L.encode x) →
      (records.length + ops.length) * L.size + tail.length ≤ min first next →
      Recovers L preproc records tail ops first next := by
  intro always
  have recovers := always pairLayout (fun x => x) [(1, 2)] [3] [.pushBack (5, 6), .persist]
    16 16 ⟨(3, 4), ⟨[4], rfl⟩, by decide⟩ (by decide)
  have file := recovers.file
  revert file
  decide

end PersistentVector
end OhMyDb
