import Mathlib.Algebra.Group.Int.Defs
import Mathlib.Algebra.Group.Nat.Defs
import Mathlib.Algebra.Order.Group.Nat
import Mathlib.Data.List.Basic

/-!
Values stored one after another in a fixed number of bytes each, and the layouts of
machine integers, byte arrays and records of them.
-/

namespace Records
universe u v
variable {T : Type u} {U : Type v}

/-- How a value is laid out in memory; no value takes more than 1 GiB. -/
structure Layout (T : Type u) where
  size : ℕ
  size_pos : 0 < size
  size_le : size ≤ 2 ^ 30
  encode : T → List UInt8
  decode : List UInt8 → T
  encode_length : ∀ x, (encode x).length = size
  decode_encode : ∀ x, decode (encode x) = x

namespace Layout
variable (L : Layout T)

def encodeAll (xs : List T) : List UInt8 :=
  xs.flatMap L.encode

/-- The value that begins at a byte. -/
def read (bytes : List UInt8) (i : ℕ) : T :=
  L.decode ((bytes.drop i).take L.size)

@[simp] theorem encodeAll_nil : L.encodeAll [] = [] := rfl

@[simp] theorem encodeAll_cons (x : T) (xs : List T) :
    L.encodeAll (x :: xs) = L.encode x ++ L.encodeAll xs := rfl

@[simp] theorem encodeAll_append (xs ys : List T) :
    L.encodeAll (xs ++ ys) = L.encodeAll xs ++ L.encodeAll ys :=
  List.flatMap_append

@[simp] theorem encodeAll_length (xs : List T) :
    (L.encodeAll xs).length = xs.length * L.size := by
  induction xs with
  | nil => simp
  | cons x xs ih =>
      rw [encodeAll_cons, List.length_append, L.encode_length, ih, List.length_cons,
        Nat.succ_mul, Nat.add_comm]

theorem read_encode (before : List UInt8) (x : T) (after : List UInt8) :
    L.read (before ++ (L.encode x ++ after)) before.length = x := by
  rw [read, List.drop_left, List.take_left' (L.encode_length x), L.decode_encode]

/-- A loop over the records of a buffer, as long as its condition on the offset holds. -/
def walk (more : ℕ → Bool) (bytes : List UInt8) : ℕ → ℕ → List T
  | 0, _ => []
  | fuel + 1, i =>
      if more i then L.read bytes i :: walk more bytes fuel (i + L.size) else []

/-- The offsets at which such a loop reads. -/
def offsets (more : ℕ → Bool) : ℕ → ℕ → List ℕ
  | 0, _ => []
  | fuel + 1, i => if more i then i :: offsets more fuel (i + L.size) else []

theorem walk_eq_map (more : ℕ → Bool) (bytes : List UInt8) (fuel i : ℕ) :
    L.walk more bytes fuel i = (L.offsets more fuel i).map (L.read bytes) := by
  induction fuel generalizing i with
  | zero => rfl
  | succ fuel ih =>
      rw [walk, offsets]
      split
      · rw [List.map_cons, ih]
      · rfl

theorem offsets_eq {more : ℕ → Bool} {n fuel i : ℕ} (goes : ∀ k < n, more (i + k * L.size) = true)
    (stops : more (i + n * L.size) = false) (enough : n < fuel) :
    L.offsets more fuel i = (List.range n).map fun k => i + k * L.size := by
  induction n generalizing i fuel with
  | zero =>
      obtain ⟨fuel, rfl⟩ := Nat.exists_eq_succ_of_ne_zero (Nat.ne_of_gt enough)
      have stop : more i = false := by simpa using stops
      simp [offsets, stop]
  | succ n ih =>
      obtain ⟨fuel, rfl⟩ := Nat.exists_eq_succ_of_ne_zero
        (Nat.ne_of_gt (Nat.lt_of_le_of_lt (Nat.zero_le _) enough))
      have offset (k : ℕ) : i + L.size + k * L.size = i + (k + 1) * L.size := by
        rw [Nat.succ_mul]
        omega
      have next := ih (i := i + L.size)
        (fun k hk => by rw [offset]; exact goes (k + 1) (Nat.succ_lt_succ hk))
        (by rw [offset]; exact stops) (Nat.lt_of_succ_lt_succ enough)
      have first : more i = true := by simpa using goes 0 (Nat.zero_lt_succ _)
      rw [offsets, if_pos first, next, List.range_succ_eq_map, List.map_cons, List.map_map]
      simp [Function.comp_def, offset]

theorem read_encodeAll (xs : List T) (before tail : List UInt8) {k : ℕ} (inside : k < xs.length) :
    L.read (before ++ (L.encodeAll xs ++ tail)) (before.length + k * L.size) = xs[k] := by
  have front : (before ++ L.encodeAll (xs.take k)).length = before.length + k * L.size := by
    rw [List.length_append, L.encodeAll_length, List.length_take, Nat.min_eq_left inside.le]
  have parts : L.encodeAll xs =
      L.encodeAll (xs.take k) ++ (L.encode xs[k] ++ L.encodeAll (xs.drop (k + 1))) := by
    rw [← L.encodeAll_cons, ← List.drop_eq_getElem_cons inside, ← L.encodeAll_append,
      List.take_append_drop]
  rw [parts, List.append_assoc, List.append_assoc, ← List.append_assoc before, ← front,
    L.read_encode]

/-- Reading the first records one by one. -/
theorem map_read_encodeAll (xs : List T) (tail : List UInt8) {n : ℕ} (inside : n ≤ xs.length) :
    (List.range n).map (fun k => L.read (L.encodeAll xs ++ tail) (k * L.size)) = xs.take n := by
  refine List.ext_getElem (by simp [inside]) fun k hk _ => ?_
  rw [List.length_map, List.length_range] at hk
  have here := L.read_encodeAll xs [] tail (hk.trans_le inside)
  simp only [List.nil_append, List.length_nil, Nat.zero_add] at here
  rw [List.getElem_map, List.getElem_range, here, List.getElem_take]

/-- Such a loop reads the records it is to stop behind. -/
theorem walk_eq {more : ℕ → Bool} {fuel : ℕ} (xs : List T) (tail : List UInt8)
    (goes : ∀ k < xs.length, more (k * L.size) = true)
    (stops : more (xs.length * L.size) = false) (enough : xs.length < fuel) :
    L.walk more (L.encodeAll xs ++ tail) fuel 0 = xs := by
  rw [L.walk_eq_map, L.offsets_eq (n := xs.length) (by simpa using goes) (by simpa using stops)
    enough, List.map_map]
  simpa [Function.comp_def] using L.map_read_encodeAll xs tail le_rfl

/-- A layout through a value that determines the one to be stored. -/
def through (f : U → T) (g : T → U) (left : ∀ x, g (f x) = x) : Layout U where
  size := L.size
  size_pos := L.size_pos
  size_le := L.size_le
  encode x := L.encode (f x)
  decode bytes := g (L.decode bytes)
  encode_length x := L.encode_length (f x)
  decode_encode x := by rw [L.decode_encode, left]

/-- One value after the other, with no padding. -/
def prod (M : Layout U) (le : L.size + M.size ≤ 2 ^ 30) : Layout (T × U) where
  size := L.size + M.size
  size_pos := Nat.add_pos_left L.size_pos _
  size_le := le
  encode x := L.encode x.1 ++ M.encode x.2
  decode bytes := (L.decode (bytes.take L.size), M.decode (bytes.drop L.size))
  encode_length x := by rw [List.length_append, L.encode_length, M.encode_length]
  decode_encode x := by
    rw [List.take_left' (L.encode_length _), List.drop_left' (L.encode_length _),
      L.decode_encode, M.decode_encode]

/-- An array of bytes. -/
def chars (n : ℕ) (pos : 0 < n) (le : n ≤ 2 ^ 30) : Layout (Vector UInt8 n) where
  size := n
  size_pos := pos
  size_le := le
  encode v := v.toList
  decode bytes := Vector.ofFn fun i => bytes.getD i 0
  encode_length v := by simp
  decode_encode v := by
    ext i
    simp

def bool : Layout Bool where
  size := 1
  size_pos := by decide
  size_le := by decide
  encode b := [if b then 1 else 0]
  decode bytes := bytes.headD 0 != 0
  encode_length _ := rfl
  decode_encode b := by cases b <;> rfl

/-- The four bytes of a word, the lowest first. -/
def wordBytes (n : ℕ) : List UInt8 :=
  [.ofNat n, .ofNat (n / 2 ^ 8), .ofNat (n / 2 ^ 16), .ofNat (n / 2 ^ 24)]

def wordValue (bytes : List UInt8) : ℕ :=
  bytes.foldr (fun b n => b.toNat + 2 ^ 8 * n) 0

theorem wordValue_wordBytes {n : ℕ} (h : n < 2 ^ 32) : wordValue (wordBytes n) = n := by
  simp only [wordValue, wordBytes, List.foldr_cons, List.foldr_nil, UInt8.toNat_ofNat']
  omega

def int32 : Layout Int32 where
  size := 4
  size_pos := by decide
  size_le := by decide
  encode x := wordBytes x.toBitVec.toNat
  decode bytes := .ofBitVec (.ofNat 32 (wordValue bytes))
  encode_length _ := rfl
  decode_encode x := by
    rw [wordValue_wordBytes x.toBitVec.isLt, BitVec.ofNat_toNat, BitVec.setWidth_eq,
      Int32.ofBitVec_toBitVec]

end Layout
end Records
