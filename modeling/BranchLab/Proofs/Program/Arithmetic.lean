import Mathlib.Algebra.Ring.Int.Defs
import BranchLab.Basic
import BranchLab.Program.Expr

/-! Arithmetic on words against arithmetic on integers. Sums, differences and products are the exact
ones reduced to 64 signed bits, a quotient is cut off toward zero with the remainder that belongs to
it, and shifts multiply and divide by a power of two. -/

namespace BranchLab

section Division

variable {a b : Int64}

theorem apply_div (nonzero : b ≠ 0) (a : Int64) : BinaryOp.div.apply a b = a / b := if_neg nonzero

theorem apply_rem (nonzero : b ≠ 0) (a : Int64) : BinaryOp.rem.apply a b = a % b := if_neg nonzero

theorem natAbs_toInt_pos (nonzero : b ≠ 0) : 0 < b.toInt.natAbs := by
  apply Int.natAbs_pos.mpr
  intro zero
  exact nonzero (Int64.toInt_inj.mp zero)

/-- The quotient may wrap, and with it the product, but not together with the remainder. -/
theorem quotient_and_remainder (a b : Int64) : a / b * b + a % b = a := by
  apply Int64.toInt_inj.mp
  rw [Int64.toInt_add, Int64.toInt_mul, Int64.toInt_div, Int64.toInt_mod, Int.bmod_mul_bmod,
    Int.bmod_add_bmod, Int.mul_comm, Int.mul_tdiv_add_tmod]
  exact Int64.toInt_bmod a

/-- Only one quotient is out of range, that of the least word with its sign turned. -/
theorem toInt_div_of_fits (fits : ¬(a = Int64.minValue ∧ b = -1)) :
    (a / b).toInt = a.toInt.tdiv b.toInt := by
  by_cases least : a = Int64.minValue
  · exact Int64.toInt_div_of_ne_right a b fun turned => fits ⟨least, turned⟩
  · exact Int64.toInt_div_of_ne_left a b least

theorem natAbs_mod_lt (nonzero : b ≠ 0) (a : Int64) :
    (a % b).toInt.natAbs < b.toInt.natAbs := by
  rw [Int64.toInt_mod, Int.natAbs_tmod]
  exact Nat.mod_lt _ (natAbs_toInt_pos nonzero)

theorem sign_mod (a b : Int64) :
    (a % b).toInt = 0 ∨ (a % b).toInt.sign = a.toInt.sign := by
  rw [Int64.toInt_mod]
  by_cases exact : b.toInt ∣ a.toInt
  · exact .inl (Int.tmod_eq_zero_of_dvd exact)
  · exact .inr (by rw [Int.sign_tmod, if_neg exact])

end Division

section Shifts

theorem toInt_shiftPlaces (amount : Int64) : (shiftPlaces amount).toInt = amount.toInt % 64 := by
  have places : (shiftPlaces amount).toBitVec.toNat = amount.toBitVec.toNat % 64 :=
    Nat.and_two_pow_sub_one_eq_mod amount.toBitVec.toNat 6
  rw [← Int64.toInt_toBitVec, ← Int64.toInt_toBitVec, BitVec.toInt_eq_toNat_cond,
    BitVec.toInt_eq_toNat_cond, places]
  omega

/-- The amount that a shift is given is reduced once more, which leaves it as it is. -/
theorem toNat_smod_shiftPlaces {amount : Int64} {places : Nat}
    (low : (places : Int) = amount.toInt % 64) :
    ((shiftPlaces amount).toBitVec.smod 64).toNat = places := by
  have reduced : ((shiftPlaces amount).toBitVec.smod 64).toInt = places := by
    have size : (64 : BitVec 64).toInt = 64 := rfl
    rw [BitVec.toInt_smod, Int64.toInt_toBitVec, toInt_shiftPlaces, ← low, size,
      Int.fmod_eq_emod_of_nonneg _ (by decide)]
    omega
  rw [BitVec.toInt_eq_toNat_cond] at reduced
  split at reduced <;> omega

variable (a : Int64) {amount : Int64} {places : Nat}

theorem toInt_shl (low : (places : Int) = amount.toInt % 64) :
    (BinaryOp.shl.apply a amount).toInt = (a.toInt * 2 ^ places).bmod (2 ^ 64) := by
  rw [BinaryOp.apply, ← Int64.toInt_toBitVec, Int64.toBitVec_shiftLeft, BitVec.shiftLeft_eq',
    toNat_smod_shiftPlaces low, BitVec.toInt_shiftLeft, ← Int64.toInt_toBitVec,
    BitVec.toInt_eq_toNat_bmod, Int.bmod_mul_bmod, Nat.shiftLeft_eq]
  norm_cast

theorem toInt_shr (low : (places : Int) = amount.toInt % 64) :
    (BinaryOp.shr.apply a amount).toInt = a.toInt.fdiv (2 ^ places) := by
  have power : ((2 ^ places : Nat) : Int) = 2 ^ places := by norm_cast
  rw [BinaryOp.apply, ← Int64.toInt_toBitVec, Int64.toBitVec_shiftRight, BitVec.sshiftRight',
    toNat_smod_shiftPlaces low, BitVec.toInt_sshiftRight, Int64.toInt_toBitVec,
    Int.shiftRight_eq_div_pow, ← power, Int.fdiv_eq_ediv_of_nonneg _ (Int.natCast_nonneg _)]

end Shifts

/-- A sum, a difference and a product are the exact ones reduced to 64 signed bits. Division by zero
gives zero twice. Otherwise the quotient is the exact one cut off toward zero, unless that is the
least word with its sign turned, which stays the least word; the remainder is smaller than the
divisor, zero or of the sign of the dividend, and makes up the dividend with the product. A shift goes
by the number from 0 to 63 that the amount leaves by 64: to the left it multiplies by a power of two,
reduced to 64 signed bits, to the right it divides by it, rounding down. -/
theorem arithmetic_reduces_exact_results (a b : Int64) :
    (BinaryOp.add.apply a b).toInt = (a.toInt + b.toInt).bmod (2 ^ 64) ∧
    (BinaryOp.sub.apply a b).toInt = (a.toInt - b.toInt).bmod (2 ^ 64) ∧
    (BinaryOp.mul.apply a b).toInt = (a.toInt * b.toInt).bmod (2 ^ 64) ∧
    (b = 0 → BinaryOp.div.apply a b = 0 ∧ BinaryOp.rem.apply a b = 0) ∧
    (b ≠ 0 →
      let quotient := BinaryOp.div.apply a b
      let remainder := BinaryOp.rem.apply a b
      BinaryOp.add.apply (BinaryOp.mul.apply quotient b) remainder = a ∧
      remainder.toInt.natAbs < b.toInt.natAbs ∧
      (remainder.toInt = 0 ∨ remainder.toInt.sign = a.toInt.sign) ∧
      if a = Int64.minValue ∧ b = -1 then quotient = Int64.minValue
      else quotient.toInt = a.toInt.tdiv b.toInt) ∧
    ∃ places : Nat, places ≤ 63 ∧ (places : Int) = b.toInt % 64 ∧
      (BinaryOp.shl.apply a b).toInt = (a.toInt * 2 ^ places).bmod (2 ^ 64) ∧
      (BinaryOp.shr.apply a b).toInt = a.toInt.fdiv (2 ^ places) := by
  refine ⟨Int64.toInt_add a b, Int64.toInt_sub a b, Int64.toInt_mul a b, ?_, ?_, ?_⟩
  · rintro rfl
    exact ⟨rfl, rfl⟩
  · intro nonzero
    simp only [apply_div nonzero, apply_rem nonzero]
    refine ⟨quotient_and_remainder a b, natAbs_mod_lt nonzero a, sign_mod a b, ?_⟩
    split
    · rename_i turned
      rw [turned.1, turned.2, Int64.minValue_div_neg_one]
    · exact toInt_div_of_fits ‹_›
  · have low : ((b.toInt % 64).toNat : Int) = b.toInt % 64 := by omega
    exact ⟨(b.toInt % 64).toNat, by omega, low, toInt_shl a low, toInt_shr a low⟩

/-- The least word divided by minus one, and shifted by the 63 places that minus one stands for. -/
theorem arithmetic_reduces_exact_results_extremes :
    let least := Int64.minValue
    (-1 : Int64) ≠ 0 ∧ BinaryOp.div.apply least (-1) = least ∧
      (BinaryOp.rem.apply least (-1)).toInt.natAbs < 1 ∧ BinaryOp.div.apply least 0 = 0 ∧
      (BinaryOp.shl.apply least (-1)).toInt = 0 ∧ (BinaryOp.shr.apply least (-1)).toInt = -1 := by
  intro least
  have nonzero : (-1 : Int64) ≠ 0 := by decide
  obtain ⟨-, -, -, -, divided, places, -, low, left, right⟩ :=
    arithmetic_reduces_exact_results least (-1)
  obtain ⟨-, smaller, -, quotient⟩ := divided nonzero
  rw [if_pos ⟨rfl, rfl⟩] at quotient
  obtain rfl : places = 63 := Int.ofNat.inj low
  obtain ⟨-, -, -, zero, -⟩ := arithmetic_reduces_exact_results least 0
  exact ⟨nonzero, quotient, smaller, (zero rfl).1, left.trans (by decide), right.trans (by decide)⟩

end BranchLab
