import Mathlib.Data.List.TakeWhile

/-!
Integers written in decimal and read back, as `std::to_string` and `std::stoi` do it.
-/

namespace OhMyDb

/-- `std::isspace` in the C locale. -/
def isSpace (c : Char) : Bool :=
  c == ' ' || (9 ≤ c.toNat && c.toNat ≤ 13)

/-- The longest run of digits at the front, if there is one. -/
def digitsValue (cs : List Char) : Option Nat :=
  match cs.takeWhile Char.isDigit with
  | [] => none
  | ds => some (Nat.ofDigitChars 10 ds 0)

/-- `std::stoi`; it throws `std::invalid_argument` where there is no value. -/
def stoi (s : String) : Option Int :=
  match s.toList.dropWhile isSpace with
  | '-' :: cs => (digitsValue cs).map fun n => -(n : Int)
  | '+' :: cs => (digitsValue cs).map Int.ofNat
  | cs => (digitsValue cs).map Int.ofNat

/-- What `std::stoi` throws. -/
inductive StoiError where
  | invalidArgument
  | outOfRange
  deriving DecidableEq

/-- `std::stoi` at the width of its result. -/
def stoiInt (s : String) : Except StoiError Int32 :=
  match stoi s with
  | none => .error .invalidArgument
  | some n =>
      if Int32.minValue.toInt ≤ n ∧ n ≤ Int32.maxValue.toInt then .ok (.ofInt n)
      else .error .outOfRange

theorem isSpace_eq_false {c : Char} (digit : c.isDigit = true) : isSpace c = false := by
  simp only [Char.isDigit, Bool.and_eq_true, decide_eq_true_eq] at digit
  have low : 48 ≤ c.toNat := UInt32.le_iff_toNat_le.mp digit.1
  have space : c ≠ ' ' := fun e => by simp [e] at low
  simp [isSpace, space]
  omega

theorem digitsValue_toDigits (n : Nat) : digitsValue (Nat.toDigits 10 n) = some n := by
  have all : (Nat.toDigits 10 n).takeWhile Char.isDigit = Nat.toDigits 10 n :=
    List.takeWhile_eq_self_iff.mpr fun c hc =>
      Nat.isDigit_of_mem_toDigits (by decide) (by decide) hc
  rw [digitsValue, all]
  split
  · next e => exact absurd e Nat.toDigits_ne_nil
  · rw [Nat.ofDigitChars_ten_toDigits]

theorem toList_toString_ofNat (n : Nat) :
    (toString (Int.ofNat n)).toList = Nat.toDigits 10 n := Nat.toList_repr

theorem toList_toString_negSucc (n : Nat) :
    (toString (Int.negSucc n)).toList = '-' :: Nat.toDigits 10 (n + 1) := by
  change ("-" ++ Nat.repr (n + 1)).toList = _
  simp [Nat.toList_repr]

/-- A number is written with digits, after a sign if it is negative. -/
theorem isDigit_of_mem_toString {v : Int} {c : Char} (mem : c ∈ (toString v).toList)
    (ne : c ≠ '-') : c.isDigit = true := by
  cases v with
  | ofNat n =>
      rw [toList_toString_ofNat] at mem
      exact Nat.isDigit_of_mem_toDigits (by decide) (by decide) mem
  | negSucc n =>
      rw [toList_toString_negSucc] at mem
      rcases List.mem_cons.mp mem with rfl | mem
      · exact absurd rfl ne
      · exact Nat.isDigit_of_mem_toDigits (by decide) (by decide) mem

theorem stoi_toString (v : Int) : stoi (toString v) = some v := by
  cases v with
  | ofNat n =>
      obtain ⟨c, cs, e⟩ := List.exists_cons_of_ne_nil (Nat.toDigits_ne_nil (n := n) (b := 10))
      have digit : c.isDigit = true :=
        Nat.isDigit_of_mem_toDigits (n := n) (b := 10) (by decide) (by decide) (by simp [e])
      have kept : (c :: cs).dropWhile isSpace = c :: cs := by
        simp [isSpace_eq_false digit]
      have value := digitsValue_toDigits n
      rw [e] at value
      rw [stoi, toList_toString_ofNat, e, kept]
      split
      · next e => cases e; simp at digit
      · next e => cases e; simp at digit
      · rw [value]; rfl
  | negSucc n =>
      have kept : ('-' :: Nat.toDigits 10 (n + 1)).dropWhile isSpace =
          '-' :: Nat.toDigits 10 (n + 1) := rfl
      rw [stoi, toList_toString_negSucc, kept]
      simp only [digitsValue_toDigits]
      rfl

theorem toString_isEmpty (v : Int) : (toString v).isEmpty = false := by
  have value := stoi_toString v
  rw [Bool.eq_false_iff]
  intro empty
  rw [String.isEmpty_iff.mp empty] at value
  cases value

/-- Every `int` is read back as it was written. -/
theorem stoiInt_toString (n : Int32) : stoiInt (toString n.toInt) = .ok n := by
  simp only [stoiInt, stoi_toString, if_pos (And.intro n.minValue_le_toInt n.toInt_le),
    Int32.ofInt_toInt]

end OhMyDb
