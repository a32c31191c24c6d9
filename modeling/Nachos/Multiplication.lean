import Nachos.InstructionExecution

/-!
# Multiplication

`Mult` adds up the multiples of `b` that the bits of `a` select.  In the rounds that are
left, the loop adds the product of the low bits of `a` and the double word `bHi`, `bLo`,
which the arithmetic shift of `a` does not spoil: as many bits as there are rounds are
those of the factor.
-/

namespace Nachos

/-- Two words as one number. -/
def doubleWord (hi lo : CInt) : Nat :=
  hi.toNat * 2 ^ 32 + lo.toNat

theorem doubleWord_lt (hi lo : CInt) : doubleWord hi lo < 2 ^ 64 := by
  have hiBound := hi.isLt
  have loBound := lo.isLt
  unfold doubleWord
  omega

section Words

theorem and_one_ne_zero_iff (a : CInt) : a &&& 1 ≠ 0 ↔ a.toNat % 2 = 1 := by
  rw [← BitVec.toNat_inj.ne, BitVec.toNat_and]
  change a.toNat &&& 1 ≠ 0 ↔ _
  rw [Nat.and_one_is_mod]
  omega

theorem and_upper_eq_zero_iff (a : CInt) : a &&& 0xfffffffe = 0 ↔ a.toNat < 2 := by
  constructor
  · intro none
    have split : a = (a &&& 0xfffffffe) ||| (a &&& 1) := by
      rw [← BitVec.and_or_distrib_left]
      exact (BitVec.and_allOnes (x := a)).symm
    have low : a = a &&& 1 := by
      rw [none] at split
      exact split.trans BitVec.zero_or
    rw [low, BitVec.toNat_and]
    change a.toNat &&& 1 < 2
    rw [Nat.and_one_is_mod]
    omega
  · intro small
    have values : a.toNat = 0 ∨ a.toNat = 1 := by omega
    rcases values with zero | one
    · obtain rfl : a = 0 := BitVec.eq_of_toNat_eq zero
      rfl
    · obtain rfl : a = 1 := BitVec.eq_of_toNat_eq one
      rfl

theorem and_signBit_eq_zero_iff (word : CInt) : word &&& 0x80000000 = 0 ↔ word.msb = false := by
  have top : (0x80000000 : CInt) = BitVec.twoPow 32 31 := rfl
  rw [top, BitVec.and_twoPow, ← BitVec.msb_eq_getLsbD_last]
  cases word.msb <;> decide

/-- As many low bits as there are rounds left are those of the factor, shifted. -/
theorem sshiftRight_mod (a : CInt) {count : Nat} (few : count < 32) :
    (a.sshiftRight 1).toNat % 2 ^ count = a.toNat % 2 ^ (count + 1) / 2 := by
  have shifted : (a.sshiftRight 1).toNat =
      a.toNat / 2 + 2 ^ count * (if a.msb then 2 ^ (31 - count) else 0) := by
    have bound := a.isLt
    cases sign : a.msb with
    | false =>
        rw [BitVec.toNat_sshiftRight_of_msb_false sign, Nat.shiftRight_eq_div_pow]
        simp
    | true =>
        have powers : 2 ^ count * 2 ^ (31 - count) = 2 ^ 31 := by
          rw [← Nat.pow_add]
          congr 1
          omega
        rw [BitVec.toNat_sshiftRight_of_msb_true sign, if_pos rfl, powers,
          Nat.shiftRight_eq_div_pow]
        omega
  rw [shifted, Nat.add_mul_mod_self_left, Nat.pow_succ', Nat.mod_mul_right_div_self]

theorem shiftLeft_or_one (word : CInt) :
    word <<< (1 : Nat) ||| (1 : CInt) = word <<< (1 : Nat) + (1 : CInt) := by
  symm
  apply BitVec.add_eq_or_of_and_eq_zero
  ext i hi
  cases i <;> simp

end Words

section Loop

variable {s : MultState}

/-- The hand-made carry is right. -/
theorem doubleWord_add (room : doubleWord s.hi s.lo + doubleWord s.bHi s.bLo < 2 ^ 64) :
    doubleWord s.add.hi s.add.lo = doubleWord s.hi s.lo + doubleWord s.bHi s.bLo := by
  have loBound := s.lo.isLt
  have bLoBound := s.bLo.isLt
  unfold doubleWord at room ⊢
  unfold MultState.add
  dsimp only
  have carries : (s.lo + s.bLo).ult s.bLo = decide (2 ^ 32 ≤ s.lo.toNat + s.bLo.toNat) := by
    rw [BitVec.ult, BitVec.toNat_add]
    apply decide_eq_decide.mpr
    omega
  rw [carries]
  split
  · next carry =>
    have beyond := of_decide_eq_true carry
    rw [BitVec.toNat_add, BitVec.toNat_add, BitVec.toNat_add]
    change ((s.hi.toNat + 1) % 2 ^ 32 + s.bHi.toNat) % 2 ^ 32 * 2 ^ 32 + _ = _
    omega
  · next noCarry =>
    have within : ¬ 2 ^ 32 ≤ s.lo.toNat + s.bLo.toNat := fun beyond =>
      noCarry (decide_eq_true beyond)
    rw [BitVec.toNat_add, BitVec.toNat_add]
    omega

/-- The shifts double the multiple of `b`. -/
theorem doubleWord_shift (room : 2 * doubleWord s.bHi s.bLo < 2 ^ 64) :
    doubleWord s.shift.bHi s.shift.bLo = 2 * doubleWord s.bHi s.bLo := by
  have bLoBound := s.bLo.isLt
  have shiftLeft : ∀ word : CInt, (word <<< 1).toNat = word.toNat * 2 % 2 ^ 32 := by
    intro word
    rw [BitVec.toNat_shiftLeft, Nat.shiftLeft_eq]
  unfold doubleWord at room ⊢
  unfold MultState.shift
  dsimp only
  split
  · next set =>
    have isSet : s.bLo.msb = true := by
      rw [ne_eq, and_signBit_eq_zero_iff] at set
      simpa using set
    have large : 2 ^ 31 ≤ s.bLo.toNat := by
      rw [BitVec.msb_eq_decide] at isSet
      exact of_decide_eq_true isSet
    rw [shiftLeft_or_one, BitVec.toNat_add, shiftLeft, shiftLeft]
    change (s.bHi.toNat * 2 % 2 ^ 32 + 1) % 2 ^ 32 * 2 ^ 32 + _ = _
    omega
  · next clear =>
    have isClear : s.bLo.msb = false := (and_signBit_eq_zero_iff _).mp (not_not.mp clear)
    have small : ¬ 2 ^ 31 ≤ s.bLo.toNat := by
      rw [BitVec.msb_eq_decide] at isClear
      exact of_decide_eq_false isClear
    rw [shiftLeft, shiftLeft]
    omega

/-- What the rounds that are left add. -/
theorem doubleWord_multLoop {rounds : Nat} (few : rounds ≤ 32)
    (room : doubleWord s.hi s.lo + s.a.toNat % 2 ^ rounds * doubleWord s.bHi s.bLo < 2 ^ 64) :
    doubleWord (multLoop rounds s).hi (multLoop rounds s).lo =
      doubleWord s.hi s.lo + s.a.toNat % 2 ^ rounds * doubleWord s.bHi s.bLo := by
  induction rounds generalizing s with
  | zero => simp [multLoop, Nat.mod_one]
  | succ rounds ih =>
      -- the bits of `a` that are left are its lowest bit and those of the shifted `a`
      have shifted := sshiftRight_mod s.a (Nat.lt_of_succ_le few)
      have parity : s.a.toNat % 2 ^ (rounds + 1) % 2 = s.a.toNat % 2 := by
        rw [Nat.pow_succ', Nat.mod_mul_right_mod]
      have later : ∀ {t : MultState}, t.a = s.a → t.bHi = s.bHi → t.bLo = s.bLo →
          doubleWord t.hi t.lo +
            2 * (s.a.toNat % 2 ^ (rounds + 1) / 2) * doubleWord s.bHi s.bLo < 2 ^ 64 →
          doubleWord (multLoop rounds t.shift).hi (multLoop rounds t.shift).lo =
            doubleWord t.hi t.lo +
              2 * (s.a.toNat % 2 ^ (rounds + 1) / 2) * doubleWord s.bHi s.bLo := by
        intro t sameA sameHi sameLo space
        have isShifted : t.shift.a.toNat % 2 ^ rounds = s.a.toNat % 2 ^ (rounds + 1) / 2 := by
          rw [← shifted, ← sameA]
          rfl
        have sum : doubleWord t.shift.hi t.shift.lo = doubleWord t.hi t.lo := rfl
        rcases Nat.eq_zero_or_pos (s.a.toNat % 2 ^ (rounds + 1) / 2) with none | some
        · rw [ih (Nat.le_of_succ_le few), isShifted, none, sum]
          · simp
          · rw [isShifted, none, sum, Nat.zero_mul, Nat.add_zero]
            exact doubleWord_lt _ _
        · have double : doubleWord t.shift.bHi t.shift.bLo = 2 * doubleWord s.bHi s.bLo := by
            rw [doubleWord_shift, sameHi, sameLo]
            rw [sameHi, sameLo]
            have least : 2 * 1 * doubleWord s.bHi s.bLo ≤
                2 * (s.a.toNat % 2 ^ (rounds + 1) / 2) * doubleWord s.bHi s.bLo :=
              Nat.mul_le_mul_right _ (Nat.mul_le_mul_left 2 some)
            omega
          have product : t.shift.a.toNat % 2 ^ rounds * doubleWord t.shift.bHi t.shift.bLo =
              2 * (s.a.toNat % 2 ^ (rounds + 1) / 2) * doubleWord s.bHi s.bLo := by
            rw [isShifted, double, ← Nat.mul_assoc, Nat.mul_comm _ 2]
          rw [ih (Nat.le_of_succ_le few), product, sum]
          rw [product, sum]
          exact space
      unfold multLoop
      split
      · next odd =>
        rw [and_one_ne_zero_iff] at odd
        have bits : s.a.toNat % 2 ^ (rounds + 1) =
            1 + 2 * (s.a.toNat % 2 ^ (rounds + 1) / 2) := by omega
        have addend : s.a.toNat % 2 ^ (rounds + 1) * doubleWord s.bHi s.bLo =
            doubleWord s.bHi s.bLo +
              2 * (s.a.toNat % 2 ^ (rounds + 1) / 2) * doubleWord s.bHi s.bLo := by
          conv_lhs => rw [bits, Nat.add_mul, Nat.one_mul]
        rw [addend, ← Nat.add_assoc] at room ⊢
        have added : doubleWord s.add.hi s.add.lo =
            doubleWord s.hi s.lo + doubleWord s.bHi s.bLo := doubleWord_add (by omega)
        split
        · next last =>
          rw [and_upper_eq_zero_iff] at last
          have one : s.a.toNat = 1 := by omega
          have none : s.a.toNat % 2 ^ (rounds + 1) / 2 = 0 := by
            rw [one]
            have bound := Nat.mod_le 1 (2 ^ (rounds + 1))
            omega
          rw [added, none, Nat.mul_zero, Nat.zero_mul, Nat.add_zero]
        · rw [← added] at room ⊢
          exact later rfl rfl rfl room
      · next even =>
        rw [and_one_ne_zero_iff] at even
        have bits : s.a.toNat % 2 ^ (rounds + 1) =
            2 * (s.a.toNat % 2 ^ (rounds + 1) / 2) := by omega
        rw [bits] at room ⊢
        exact later rfl rfl rfl room

end Loop

/-- The loop multiplies the two words as unsigned numbers. -/
theorem doubleWord_product (a b : CInt) :
    doubleWord (multLoop 32 ⟨a, b, 0, 0, 0⟩).hi (multLoop 32 ⟨a, b, 0, 0, 0⟩).lo =
      a.toNat * b.toNat := by
  have start : doubleWord 0 0 + a.toNat % 2 ^ 32 * doubleWord 0 b = a.toNat * b.toNat := by
    rw [Nat.mod_eq_of_lt a.isLt]
    simp [doubleWord]
  have room : a.toNat * b.toNat < 2 ^ 64 := by
    have bound := Nat.mul_lt_mul'' a.isLt b.isLt
    omega
  rw [← start]
  apply doubleWord_multLoop (Nat.le_refl _)
  dsimp only
  rwa [start]

theorem doubleWord_negateDouble (hi lo : CInt) :
    doubleWord (negateDouble hi lo).1 (negateDouble hi lo).2 =
      (2 ^ 64 - doubleWord hi lo) % 2 ^ 64 := by
  have hiBound := hi.isLt
  have loBound := lo.isLt
  have one : (1 : CInt).toNat = 1 := rfl
  have zero_iff : ~~~lo + 1 = 0 ↔ lo.toNat = 0 := by
    rw [← BitVec.toNat_inj, BitVec.toNat_add, BitVec.toNat_not, one]
    change _ = 0 ↔ _
    omega
  unfold doubleWord negateDouble
  dsimp only
  split
  · next isZero =>
    have low := zero_iff.mp isZero
    rw [isZero, BitVec.toNat_add, BitVec.toNat_not, one, low]
    change _ * 2 ^ 32 + 0 = _
    omega
  · next nonzero =>
    have low : lo.toNat ≠ 0 := fun isZero => nonzero (zero_iff.mpr isZero)
    rw [BitVec.toNat_add, BitVec.toNat_not, BitVec.toNat_not, one]
    omega

/-- `Mult` makes its operands positive first; the least `int` stays as it is and counts as
the unsigned number. -/
theorem toNat_magnitude (a : CInt) : (if a.slt 0 then -a else a).toNat = a.toInt.natAbs := by
  have bound := a.isLt
  have value := BitVec.toInt_eq_toNat_cond a
  have negative : a.slt 0 = decide (a.toInt < 0) := rfl
  rw [negative]
  split
  · next isNegative =>
    have below := of_decide_eq_true isNegative
    rw [BitVec.toNat_neg]
    split at value <;> omega
  · next notNegative =>
    have above : ¬ a.toInt < 0 := fun below => notNegative (decide_eq_true below)
    split at value <;> omega

/-- The product of two words of different signs is negative. -/
theorem toInt_mul_neg_iff {a b : CInt} (aNonzero : a ≠ 0) (bNonzero : b ≠ 0) :
    (a.slt 0 ^^ b.slt 0) = true ↔ a.toInt * b.toInt < 0 := by
  have nonzero : ∀ {word : CInt}, word ≠ 0 → word.toInt ≠ 0 := fun different isZero =>
    different (BitVec.eq_of_toInt_eq isZero)
  have signs : ∀ word : CInt, word.slt 0 = decide (word.toInt < 0) := fun _ => rfl
  rw [Int.mul_neg_iff, signs, signs]
  have aSign := nonzero aNonzero
  have bSign := nonzero bNonzero
  by_cases aBelow : a.toInt < 0 <;> by_cases bBelow : b.toInt < 0 <;>
    simp [aBelow, bBelow] <;> omega

/-- `Mult` computes the exact product of two words, as signed numbers in two's complement or
as unsigned numbers. -/
theorem mult_exact (a b : CInt) :
    ((doubleWord (mult a b true).1 (mult a b true).2 : Nat) : Int) =
        a.toInt * b.toInt % 2 ^ 64 ∧
      doubleWord (mult a b false).1 (mult a b false).2 = a.toNat * b.toNat := by
  unfold mult
  by_cases zero : a = 0 ∨ b = 0
  · rw [if_pos zero, if_pos zero]
    rcases zero with rfl | rfl
    · exact ⟨by simp [doubleWord], by simp [doubleWord]⟩
    · exact ⟨by simp [doubleWord], by simp [doubleWord]⟩
  · rw [if_neg zero, if_neg zero]
    rw [not_or] at zero
    constructor
    · simp only [Bool.true_and]
      have product := doubleWord_product (if a.slt 0 then -a else a) (if b.slt 0 then -b else b)
      rw [toNat_magnitude, toNat_magnitude, ← Int.natAbs_mul] at product
      have sign := toInt_mul_neg_iff zero.1 zero.2
      have bound := doubleWord_lt
        (multLoop 32 ⟨if a.slt 0 then -a else a, if b.slt 0 then -b else b, 0, 0, 0⟩).hi
        (multLoop 32 ⟨if a.slt 0 then -a else a, if b.slt 0 then -b else b, 0, 0, 0⟩).lo
      rw [product] at bound
      split
      · next different =>
        have negative := sign.mp different
        rw [doubleWord_negateDouble, product]
        omega
      · next same =>
        have nonnegative : ¬ a.toInt * b.toInt < 0 := fun negative => same (sign.mpr negative)
        rw [product]
        omega
    · simp only [Bool.false_and, Bool.false_eq_true, if_false, Bool.xor_false]
      exact doubleWord_product a b

example : mult 0x80000000 0x80000000 true = (0x40000000, 0) := by decide +kernel

end Nachos
