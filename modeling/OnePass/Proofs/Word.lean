import Mathlib
import OnePass.Word

/-!
# Small numbers as words

Positions and addresses stay below `2147483648`, where both readings of a word agree. -/

namespace OnePass.Word

variable {n : Nat}

theorem toNat_ofNat (h : n < 2147483648) : (BitVec.ofNat 32 n).toNat = n := by
  rw [BitVec.toNat_ofNat]
  exact Nat.mod_eq_of_lt (by omega)

theorem ofNat_ne_zero (h : n < 2147483648) (hn : 0 < n) : BitVec.ofNat 32 n ≠ 0 := by
  intro hzero
  have hnat := congrArg BitVec.toNat hzero
  rw [toNat_ofNat h] at hnat
  exact Nat.ne_of_gt hn hnat

theorem toInt_ofNat (h : n < 2147483648) : (BitVec.ofNat 32 n).toInt = n := by
  have hsmall : 2 * (BitVec.ofNat 32 n).toNat < 4294967296 := by
    rw [toNat_ofNat h]
    omega
  rw [BitVec.toInt_eq_toNat_of_lt hsmall, toNat_ofNat h]

theorem toNat_signExtend_ofNat (h : n < 2147483648) :
    ((BitVec.ofNat 32 n).signExtend 64).toNat = n := by
  have hmsb : (BitVec.ofNat 32 n).msb = false := by
    rw [BitVec.msb_eq_decide, toNat_ofNat h]
    simpa using h
  rw [BitVec.signExtend_eq_setWidth_of_msb_false hmsb, BitVec.toNat_setWidth, toNat_ofNat h]
  exact Nat.mod_eq_of_lt (by omega)

end OnePass.Word
