import Mathlib.Algebra.Ring.Int.Defs
import Mathlib.Algebra.Ring.Nat
import ObjectWrapper.Condition.Operator

namespace ObjectWrapper
namespace Condition

open Source

/-!
# Arithmetic of conditions

What operators mean is said here on integers: results are brought back into the
range of 64 bits by adding or subtracting multiples of 2^64, shift counts are
taken modulo 64, and the bitwise operators act on the binary form of their
operands.  The operators on words agree with this, and only a division by zero
has no result.
-/

/-- The integer between -2^63 and 2^63 that differs from the given one by a
multiple of 2^64. -/
def wrap (value : Int) : Int :=
  value.bmod (2 ^ 64)

def shiftCount (count : Int) : Nat :=
  (count % 64).toNat

/-- An operation on binary forms, as one on integers. -/
def bitwise (operation : BitVec 64 -> BitVec 64 -> BitVec 64) (left right : Int) : Int :=
  (operation (BitVec.ofInt 64 left) (BitVec.ofInt 64 right)).toInt

def truthValue (holds : Bool) : Int :=
  if holds then 1 else 0

def BinaryOperator.meaning (operator : BinaryOperator) (left right : Int) : Int :=
  match operator with
  | times => wrap (left * right)
  | divide => wrap (left.tdiv right)
  | modulo => left.tmod right
  | plus => wrap (left + right)
  | minus => wrap (left - right)
  | shiftLeft => wrap (left * 2 ^ shiftCount right)
  | shiftRight => left / 2 ^ shiftCount right
  | less => truthValue (left < right)
  | greater => truthValue (left > right)
  | atMost => truthValue (left ≤ right)
  | atLeast => truthValue (left ≥ right)
  | equal => truthValue (left = right)
  | different => truthValue (left ≠ right)
  | bitAnd => bitwise (· &&& ·) left right
  | bitXor => bitwise (· ^^^ ·) left right
  | bitOr => bitwise (· ||| ·) left right
  | and => truthValue (left ≠ 0 ∧ right ≠ 0)
  | or => truthValue (left ≠ 0 ∨ right ≠ 0)

def UnaryOperator.meaning (operator : UnaryOperator) (operand : Int) : Int :=
  match operator with
  | not => truthValue (operand = 0)
  | complement => wrap (-operand - 1)
  | minus => wrap (-operand)
  | plus => operand

/-- The operators whose second operand must not be zero. -/
def BinaryOperator.isDivision : BinaryOperator -> Bool
  | divide | modulo => true
  | _ => false

/-! ## Words and integers -/

theorem toInt_truth {holds : Bool} {statement : Prop} [Decidable statement]
    (agrees : holds = true ↔ statement) :
    (truth holds).toInt = truthValue (decide statement) := by
  rw [show holds = decide statement from Bool.eq_iff_iff.mpr (agrees.trans decide_eq_true_iff.symm)]
  cases decide statement <;> rfl

theorem toInt_eq_zero_iff (word : Int64) : word.toInt = 0 ↔ word = 0 := by
  rw [← Int64.toInt_zero, Int64.toInt_inj]

theorem toNat_smod_sixtyFour (count : BitVec 64) :
    (count.smod 64).toNat = shiftCount count.toInt := by
  have remainder : (count.smod 64).toInt = count.toInt % 64 := by
    rw [BitVec.toInt_smod, Int.fmod_eq_emod_of_nonneg _ (by decide)]
    rfl
  have nonneg := Int.emod_nonneg count.toInt (b := 64) (by decide)
  have natural : ((count.smod 64).toNat : Int) = (count.smod 64).toInt := by
    rw [BitVec.toInt_eq_toNat_of_msb]
    rw [BitVec.msb_eq_toInt, remainder]
    simpa using nonneg
  unfold shiftCount
  omega

theorem toInt_shiftLeft (left right : Int64) :
    (left <<< right).toInt = wrap (left.toInt * 2 ^ shiftCount right.toInt) := by
  rw [← Int64.toInt_toBitVec, Int64.toBitVec_shiftLeft, BitVec.shiftLeft_eq',
    toNat_smod_sixtyFour, BitVec.toInt_shiftLeft, Nat.shiftLeft_eq, Int64.toInt_toBitVec]
  have signed : left.toInt = (left.toBitVec.toNat : Int).bmod (2 ^ 64) := by
    rw [← Int64.toInt_toBitVec]
    exact BitVec.toInt_eq_toNat_bmod _
  rw [wrap, signed]
  push_cast
  exact (Int.bmod_mul_bmod).symm

theorem toInt_shiftRight (left right : Int64) :
    (left >>> right).toInt = left.toInt / 2 ^ shiftCount right.toInt := by
  rw [← Int64.toInt_toBitVec, Int64.toBitVec_shiftRight, BitVec.toInt_sshiftRight',
    toNat_smod_sixtyFour, Int.shiftRight_eq_div_pow]
  rfl

theorem toInt_bitwise {operation : BitVec 64 -> BitVec 64 -> BitVec 64} {left right result : Int64}
    (agrees : result.toBitVec = operation left.toBitVec right.toBitVec) :
    result.toInt = bitwise operation left.toInt right.toInt := by
  rw [← Int64.toInt_toBitVec, agrees, bitwise]
  simp only [← Int64.toInt_toBitVec, BitVec.ofInt_toInt]

/-! ## Operators on words -/

theorem UnaryOperator.toInt_apply (operator : UnaryOperator) (operand : Int64) :
    (operator.apply operand).toInt = operator.meaning operand.toInt := by
  cases operator with
  | not => exact toInt_truth (by rw [beq_iff_eq, toInt_eq_zero_iff])
  | complement => exact Int64.toInt_not operand
  | minus => exact Int64.toInt_neg operand
  | plus => rfl

/-- An operator other than a division has a value for all operands, and a division
for all but the divisor zero. -/
theorem BinaryOperator.exists_apply_eq_ok (operator : BinaryOperator) (left right : Int64)
    (allowed : operator.isDivision = true -> right.toInt ≠ 0) :
    ∃ result, operator.apply left right = .ok result ∧
      result.toInt = operator.meaning left.toInt right.toInt := by
  cases operator with
  | times => exact ⟨_, rfl, Int64.toInt_mul left right⟩
  | divide =>
      have nonzero : right ≠ 0 := fun zero => allowed rfl ((toInt_eq_zero_iff right).mpr zero)
      exact ⟨left / right, if_neg nonzero, Int64.toInt_div left right⟩
  | modulo =>
      have nonzero : right ≠ 0 := fun zero => allowed rfl ((toInt_eq_zero_iff right).mpr zero)
      exact ⟨left % right, if_neg nonzero, Int64.toInt_mod left right⟩
  | plus => exact ⟨_, rfl, Int64.toInt_add left right⟩
  | minus => exact ⟨_, rfl, Int64.toInt_sub left right⟩
  | shiftLeft => exact ⟨_, rfl, toInt_shiftLeft left right⟩
  | shiftRight => exact ⟨_, rfl, toInt_shiftRight left right⟩
  | less => exact ⟨_, rfl, toInt_truth (decide_eq_true_iff.trans Int64.lt_iff_toInt_lt)⟩
  | greater => exact ⟨_, rfl, toInt_truth (decide_eq_true_iff.trans Int64.lt_iff_toInt_lt)⟩
  | atMost => exact ⟨_, rfl, toInt_truth (decide_eq_true_iff.trans Int64.le_iff_toInt_le)⟩
  | atLeast => exact ⟨_, rfl, toInt_truth (decide_eq_true_iff.trans Int64.le_iff_toInt_le)⟩
  | equal => exact ⟨_, rfl, toInt_truth (beq_iff_eq.trans Int64.toInt_inj.symm)⟩
  | different => exact ⟨_, rfl, toInt_truth (bne_iff_ne.trans (not_congr Int64.toInt_inj.symm))⟩
  | bitAnd => exact ⟨_, rfl, toInt_bitwise (Int64.toBitVec_and left right)⟩
  | bitXor => exact ⟨_, rfl, toInt_bitwise (Int64.toBitVec_xor left right)⟩
  | bitOr => exact ⟨_, rfl, toInt_bitwise (Int64.toBitVec_or left right)⟩
  | and =>
      refine ⟨_, rfl, toInt_truth ?_⟩
      rw [Bool.and_eq_true_iff, bne_iff_ne, bne_iff_ne, ne_eq, ne_eq, ← toInt_eq_zero_iff,
        ← toInt_eq_zero_iff]
  | or =>
      refine ⟨_, rfl, toInt_truth ?_⟩
      rw [Bool.or_eq_true_iff, bne_iff_ne, bne_iff_ne, ne_eq, ne_eq, ← toInt_eq_zero_iff,
        ← toInt_eq_zero_iff]

/-- A division that has a value has a divisor other than zero. -/
theorem BinaryOperator.toInt_ne_zero_of_apply {operator : BinaryOperator}
    {left right result : Int64} (applied : operator.apply left right = .ok result)
    (division : operator.isDivision = true) : right.toInt ≠ 0 := by
  intro zero
  rw [toInt_eq_zero_iff] at zero
  subst right
  cases operator with
  | divide => cases applied
  | modulo => cases applied
  | _ => cases division

end Condition
end ObjectWrapper
