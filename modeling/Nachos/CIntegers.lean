import Mathlib.Algebra.Group.Int.Defs
import Mathlib.Algebra.Group.Nat.Defs
import Mathlib.Data.List.Basic
import Mathlib.Tactic.Common

/-!
# C integers

An `int` of the i386 build is a 32-bit word read as a signed number.  Stored
fields and parameters are kept as words, while local arithmetic that cannot
leave the range of an `int` is done on integers.
-/

abbrev CInt := BitVec 32

namespace CInt

/-- The numbers an `int` can hold. -/
def Fits (value : Int) : Prop :=
  -2 ^ 31 ≤ value ∧ value < 2 ^ 31

instance (value : Int) : Decidable (Fits value) :=
  inferInstanceAs (Decidable (_ ∧ _))

theorem fits_toInt (word : CInt) : Fits word.toInt :=
  ⟨word.le_toInt, word.toInt_lt⟩

theorem toInt_ofInt_of_fits {value : Int} (fits : Fits value) :
    (BitVec.ofInt 32 value).toInt = value := by
  obtain ⟨lower, upper⟩ := fits
  rw [BitVec.toInt_ofInt]
  apply Int.bmod_eq_of_le <;> omega

theorem toInt_add_of_fits {first second : CInt}
    (fits : Fits (first.toInt + second.toInt)) :
    (first + second).toInt = first.toInt + second.toInt := by
  obtain ⟨lower, upper⟩ := fits
  rw [BitVec.toInt_add]
  apply Int.bmod_eq_of_le <;> omega

/-- A sum beyond the largest `int` wraps around. -/
theorem toInt_add_of_overflow {first second : CInt}
    (overflow : 2 ^ 31 ≤ first.toInt + second.toInt) :
    (first + second).toInt = first.toInt + second.toInt - 2 ^ 32 := by
  have firstUpper := first.toInt_lt
  have secondUpper := second.toInt_lt
  rw [BitVec.toInt_add, ← Int.sub_bmod_right]
  apply Int.bmod_eq_of_le <;> omega

theorem toInt_sub_one {word : CInt} (lower : -2 ^ 31 < word.toInt) :
    (word - 1).toInt = word.toInt - 1 := by
  have upper := word.toInt_lt
  have one : BitVec.toInt (1 : CInt) = 1 := rfl
  rw [BitVec.toInt_sub, one]
  apply Int.bmod_eq_of_le <;> omega

theorem toInt_ofNat_of_lt {n : Nat} (small : n < 2 ^ 31) :
    (BitVec.ofNat 32 n).toInt = n := by
  have value : (BitVec.ofNat 32 n).toNat = n := by
    rw [BitVec.toNat_ofNat]
    omega
  rw [BitVec.toInt_eq_toNat_of_lt (by omega), value]

theorem eq_ofNat_of_toInt {word : CInt} {n : Nat} (value : word.toInt = n) :
    word = BitVec.ofNat 32 n := by
  have bound := word.toInt_lt
  apply BitVec.eq_of_toInt_eq
  rw [value, toInt_ofNat_of_lt (by omega)]

/-- `divRoundDown(n, s)`: C division, which truncates towards zero. -/
def divRoundDown (n s : Int) : Int :=
  n.tdiv s

/-- `divRoundUp(n, s)` as the macro computes it. -/
def divRoundUp (n s : Int) : Int :=
  n.tdiv s + if n.tmod s > 0 then 1 else 0

@[simp]
theorem divRoundDown_natCast (n s : Nat) :
    divRoundDown (n : Int) (s : Int) = (n / s : Nat) :=
  (Int.ofNat_tdiv n s).symm

theorem divRoundDown_neg_natCast (n s : Nat) :
    divRoundDown (-(n : Int)) (s : Int) = -(n / s : Nat) := by
  rw [divRoundDown, Int.neg_tdiv]
  exact congrArg _ (Int.ofNat_tdiv n s).symm

theorem divRoundDown_mono {first second : Int} (le : first ≤ second) {s : Nat}
    (positive : 0 < s) : divRoundDown first s ≤ divRoundDown second s :=
  Int.tdiv_le_tdiv (by omega) le

/-- On sizes, `divRoundUp` is the number of blocks needed. -/
theorem divRoundUp_natCast {n s : Nat} (positive : 0 < s) :
    divRoundUp (n : Int) (s : Int) = ((n + s - 1) / s : Nat) := by
  have remainder : (n : Int).tmod s = (n % s : Nat) := (Int.ofNat_tmod n s).symm
  have quotient : (n : Int).tdiv s = (n / s : Nat) := (Int.ofNat_tdiv n s).symm
  have bound := Nat.mod_lt n positive
  have numerator : n + s - 1 = s * (n / s) + (n % s + s - 1) := by
    have division := Nat.div_add_mod n s
    omega
  rw [divRoundUp, remainder, quotient, numerator, Nat.mul_add_div positive]
  by_cases exact : n % s = 0
  · have none : (n % s + s - 1) / s = 0 := Nat.div_eq_of_lt (by omega)
    rw [none, exact]
    rfl
  · have one : (n % s + s - 1) / s = 1 := by
      apply Nat.div_eq_of_lt_le <;> omega
    rw [one, if_pos (by omega)]
    rfl

/-- On negative numbers, `divRoundUp` truncates towards zero as well. -/
theorem divRoundUp_neg_natCast (n s : Nat) :
    divRoundUp (-(n : Int)) (s : Int) = -(n / s : Nat) := by
  have remainder : (-(n : Int)).tmod s = -(n % s : Nat) := by
    rw [Int.neg_tmod]
    exact congrArg _ (Int.ofNat_tmod n s).symm
  have quotient : (-(n : Int)).tdiv s = -(n / s : Nat) := by
    rw [Int.neg_tdiv]
    exact congrArg _ (Int.ofNat_tdiv n s).symm
  rw [divRoundUp, remainder, quotient, if_neg (by omega), Int.add_zero]

/-- The number of sectors of a file, for every size. -/
theorem divRoundUp_cases (size : Int) {s : Nat} (positive : 0 < s) :
    (0 ≤ size ∧ divRoundUp size s = ((size.toNat + s - 1) / s : Nat)) ∨
      (size < 0 ∧ divRoundUp size s = -(size.natAbs / s : Nat)) := by
  rcases Int.eq_nat_or_neg size with ⟨n, rfl | rfl⟩
  · exact Or.inl ⟨Int.natCast_nonneg n, by simpa using divRoundUp_natCast positive⟩
  · rcases Nat.eq_zero_or_pos n with rfl | nonzero
    · exact Or.inl ⟨by simp, by simpa using @divRoundUp_natCast 0 s positive⟩
    · exact Or.inr ⟨by omega, by simpa using divRoundUp_neg_natCast n s⟩

end CInt
