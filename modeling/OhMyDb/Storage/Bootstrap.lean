import OhMyDb.Model.PersistentVector
import Mathlib.Algebra.Order.Group.Int
import Mathlib.Algebra.Order.Group.Nat

/-!
How much of the file `bootstrap` loads. The offset of its loop is an `int` that is compared
as a `size_t`: past 2 GiB it is negative, which is to the comparison larger than any file,
and the loop ends.
-/

namespace OhMyDb
open Records (Layout)

/-- The number of records of one size whose offset an `int` can hold. -/
def readable (size : ℕ) : ℕ := (2 ^ 31 - 1) / size + 1

namespace PersistentVector
variable {T : Type} (L : Layout T) {bytes buf : List UInt8} {fileSize : ℕ}

theorem le_readable {n : ℕ} : n ≤ readable L.size ↔ (n - 1) * L.size < 2 ^ 31 := by
  rw [readable, ← Nat.sub_le_iff_le_add, Nat.le_div_iff_mul_le L.size_pos]
  omega

theorem lt_readable {k : ℕ} : k < readable L.size ↔ k * L.size < 2 ^ 31 := by
  rw [← Nat.succ_le_iff, le_readable, Nat.succ_sub_one]

/-- The loop ends at record `n`: the rest is less than a record, or the offset has wrapped. -/
theorem readBuffer_stops (short : fileSize < 2 ^ 63) (fuel : ℕ) {n : ℕ}
    (most : n ≤ readable L.size)
    (last : n = readable L.size ∨ fileSize < (n + 1) * L.size) :
    readBuffer L buf fileSize fuel (((n * L.size : ℕ) : Int).bmod (2 ^ 32)) = [] := by
  have small := L.size_le
  have pos := L.size_pos
  cases fuel with
  | zero => rfl
  | succ fuel =>
      rw [readBuffer, if_neg]
      by_cases inside : n * L.size < 2 ^ 31
      · rcases last with all | rest
        · exact absurd ((lt_readable L).mpr inside) (by omega)
        · rw [Nat.succ_mul] at rest
          rw [Int.bmod_eq_of_le (by omega) (by omega)]
          omega
      · -- the offset is negative
        have before := (le_readable L).mp most
        have near : n * L.size ≤ (n - 1) * L.size + L.size := by
          rw [← Nat.succ_mul]
          exact Nat.mul_le_mul_right _ (by omega)
        have wrapped : ((n * L.size : ℕ) : Int).bmod (2 ^ 32) = n * L.size - 2 ^ 32 := by
          rw [Int.bmod_def]
          omega
        rw [wrapped]
        omega

variable (buf) in
/-- The loop from record `k` on. -/
theorem readBuffer_from (short : fileSize < 2 ^ 63) (m k fuel : ℕ)
    (most : k + m ≤ readable L.size) (whole : (k + m) * L.size ≤ fileSize)
    (last : k + m = readable L.size ∨ fileSize < (k + m + 1) * L.size) (enough : m ≤ fuel) :
    readBuffer L buf fileSize fuel (((k * L.size : ℕ) : Int).bmod (2 ^ 32)) =
      (List.range' k m).map fun j => L.read buf (j * L.size) := by
  have small := L.size_le
  induction m generalizing k fuel with
  | zero => exact readBuffer_stops L short fuel most last
  | succ m ih =>
      obtain ⟨fuel, rfl⟩ := Nat.exists_eq_succ_of_ne_zero (n := fuel) (by omega)
      have offset : k * L.size < 2 ^ 31 := (lt_readable L).mp (by omega)
      have here : (k + 1) * L.size ≤ fileSize :=
        (Nat.mul_le_mul_right _ (by omega)).trans whole
      have plain : ((k * L.size : ℕ) : Int).bmod (2 ^ 32) = (k * L.size : ℕ) :=
        Int.bmod_eq_of_le (by omega) (by omega)
      have next : ((k * L.size : ℕ) : Int) + L.size = ((k + 1) * L.size : ℕ) := by
        rw [Nat.succ_mul, Int.natCast_add]
      have rest := ih (k + 1) fuel (by omega) (by rwa [Nat.add_right_comm])
        (by rwa [Nat.add_right_comm]) (by omega)
      rw [readBuffer, plain, next, if_pos (by omega), Int.toNat_natCast, rest, List.range'_succ,
        List.map_cons]

/-- The loop loads as many whole records as an `int` can walk through. -/
theorem readBuffer_eq (short : fileSize < 2 ^ 63) {fuel : ℕ} (enough : fileSize ≤ fuel) :
    readBuffer L buf fileSize fuel 0 =
      (List.range (min (fileSize / L.size) (readable L.size))).map
        fun k => L.read buf (k * L.size) := by
  have pos := L.size_pos
  have whole := Nat.div_mul_le_self fileSize L.size
  have count := Nat.le_mul_of_pos_right (fileSize / L.size) pos
  have loop := readBuffer_from L buf short (min (fileSize / L.size) (readable L.size)) 0 fuel
    (by omega) ((Nat.mul_le_mul_right _ (by omega)).trans whole) ?_ (by omega)
  · rw [List.range_eq_range', ← loop]
    simp
  · rcases le_total (readable L.size) (fileSize / L.size) with le | le
    · exact Or.inl (by omega)
    · rw [Nat.min_eq_left le, Nat.zero_add, Nat.mul_comm]
      exact Or.inr (Nat.lt_mul_div_succ fileSize pos)

/-- Where `pread` transfers the file, its records are read from the buffer. -/
theorem read_buffer {transferred k : ℕ} (there : (k + 1) * L.size ≤ transferred)
    (inside : (k + 1) * L.size ≤ bytes.length) :
    L.read (buffer bytes transferred) (k * L.size) = L.read bytes (k * L.size) := by
  rw [Nat.succ_mul] at there inside
  rw [Layout.read, Layout.read, buffer, List.drop_append_of_le_length,
    List.take_append_of_le_length, List.drop_take, List.take_take, Nat.min_eq_left (by omega)]
  · rw [List.length_drop, List.length_take]
    omega
  · rw [List.length_take]
    omega

variable [Inhabited T]

theorem bootstrapFrom_items (transferred : ℕ) (v : PersistentVector T)
    (short : bytes.length < 2 ^ 63) : (v.bootstrapFrom L transferred (some bytes)).2.1.items =
      v.items ++ (List.range (min (bytes.length / L.size) (readable L.size))).map
        fun k => L.read (buffer bytes transferred) (k * L.size) := by
  have same (w : PersistentVector T) (d : Disk) :
      (w.resize L d w.items.length).1.items = w.items := by
    unfold resize
    split <;> simp
  rw [bootstrapFrom, bootstrapWith, same, readFile, readBuffer_eq L short (Nat.le_succ _)]

/-- The whole records of the file are loaded, in order. -/
def Loads (transferred : ℕ) (v : PersistentVector T) (bytes : List UInt8) : Prop :=
  (v.bootstrapFrom L transferred (some bytes)).2.1.items =
    v.items ++ (List.range (bytes.length / L.size)).map fun k => L.read bytes (k * L.size)

/-- All is loaded just when the last whole record begins below 2 GiB, and those that `pread`
has not transferred in full read the same from the zeros in their place. -/
theorem loads_iff (transferred : ℕ) (v : PersistentVector T) (bytes : List UInt8)
    (short : bytes.length < 2 ^ 63) : Loads L transferred v bytes ↔
      (bytes.length / L.size - 1) * L.size < 2 ^ 31 ∧
        ∀ k < bytes.length / L.size, transferred < (k + 1) * L.size →
          L.read (buffer bytes transferred) (k * L.size) = L.read bytes (k * L.size) := by
  rw [← le_readable, Loads, bootstrapFrom_items L transferred v short, List.append_right_inj]
  constructor
  · intro same
    have count := congrArg List.length same
    rw [List.length_map, List.length_map, List.length_range, List.length_range] at count
    rw [count] at same
    refine ⟨by omega, fun k hk _ => ?_⟩
    exact List.map_inj_left.mp same k (List.mem_range.mpr hk)
  · rintro ⟨all, zeros⟩
    rw [Nat.min_eq_left all]
    refine List.map_congr_left fun k hk => ?_
    have inside : (k + 1) * L.size ≤ bytes.length :=
      (Nat.mul_le_mul_right _ (List.mem_range.mp hk)).trans (Nat.div_mul_le_self _ _)
    by_cases there : (k + 1) * L.size ≤ transferred
    · exact read_buffer L there inside
    · exact zeros k (List.mem_range.mp hk) (by omega)

/-- Two bytes for a record. -/
def pairLayout : Layout (UInt8 × UInt8) where
  size := 2
  size_pos := by decide
  size_le := by decide
  encode x := [x.1, x.2]
  decode
    | [a, b] => (a, b)
    | _ => (0, 0)
  encode_length _ := rfl
  decode_encode _ := rfl

theorem loads_iff_tornPair : Loads pairLayout 5 {} [1, 2, 3, 4, 5] ↔
    ([1, 2, 3, 4, 5].length / 2 - 1) * 2 < 2 ^ 31 ∧ ∀ k < [1, 2, 3, 4, 5].length / 2,
      5 < (k + 1) * 2 → pairLayout.read (buffer [1, 2, 3, 4, 5] 5) (k * 2) =
        pairLayout.read [1, 2, 3, 4, 5] (k * 2) :=
  loads_iff pairLayout 5 {} [1, 2, 3, 4, 5] (by decide)

/-- The last record of a file that goes on for a record behind 2 GiB. -/
theorem loads_of_length {bytes : List UInt8} (length : bytes.length = 2 ^ 31 + 2) :
    ¬ Loads pairLayout bytes.length {} bytes := by
  intro loads
  have short : bytes.length < 2 ^ 63 := by omega
  have items := bootstrapFrom_items pairLayout bytes.length {} short
  have count := congrArg List.length (items.symm.trans loads)
  simp only [List.length_append, List.length_map, List.length_range, length, readable,
    pairLayout] at count
  omega

theorem not_loads : ¬ ∀ bytes : List UInt8, bytes.length < 2 ^ 63 →
    Loads pairLayout bytes.length {} bytes := fun always =>
  have length : (List.replicate (2 ^ 31 + 2) (0 : UInt8)).length = 2 ^ 31 + 2 :=
    List.length_replicate
  loads_of_length length (always _ (by rw [length]; decide))

end PersistentVector
end OhMyDb
