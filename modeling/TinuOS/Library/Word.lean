import Mathlib

/-! Words of 16 bits as a high and a low byte, the nibbles and fields of a word, and the words that are not negative. -/

namespace TinuOS.Library

lemma joined_toNat (h l : BitVec 8) : (h ++ l).toNat = h.toNat * 256 + l.toNat := by
  have hl := Nat.shiftLeft_add_eq_or_of_lt l.isLt h.toNat
  rw [BitVec.toNat_append, ← hl, Nat.shiftLeft_eq]

lemma joined_bytes (x : BitVec 16) : (x >>> 8).setWidth 8 ++ x.setWidth 8 = x := by
  apply BitVec.eq_of_toNat_eq
  have hx := x.isLt
  rw [joined_toNat, BitVec.toNat_setWidth, BitVec.toNat_setWidth, BitVec.toNat_ushiftRight,
    Nat.shiftRight_eq_div_pow]
  omega

lemma nibble_eq {w : ℕ} (hw : 4 ≤ w) (n : BitVec w) (k : ℕ) :
    n >>> (4 * k) &&& BitVec.ofNat w 0xF = BitVec.ofNat w (n.toNat / 16 ^ k % 16) := by
  have hk : 2 ^ (4 * k) = 16 ^ k := pow_mul 2 4 k
  have hlt := Nat.mod_lt (n.toNat / 16 ^ k) (by decide : 0 < 16)
  have hle : 2 ^ 4 ≤ 2 ^ w := Nat.pow_le_pow_right (by decide) hw
  apply BitVec.eq_of_toNat_eq
  have hmask : (BitVec.ofNat w 0xF).toNat = 2 ^ 4 - 1 := by
    rw [BitVec.toNat_ofNat]
    exact Nat.mod_eq_of_lt (by omega)
  rw [BitVec.toNat_and, BitVec.toNat_ushiftRight, Nat.shiftRight_eq_div_pow, hk, hmask,
    Nat.and_two_pow_sub_one_eq_mod, BitVec.toNat_ofNat]
  exact (Nat.mod_eq_of_lt (by omega)).symm

lemma field_eq {w m : ℕ} (x : BitVec w) (k : ℕ) (hm : m ≤ w) :
    (x >>> k &&& BitVec.ofNat w (2 ^ m - 1)).setWidth m = x.extractLsb' k m := by
  apply BitVec.eq_of_toNat_eq
  have hpos := Nat.two_pow_pos m
  have hle : 2 ^ m ≤ 2 ^ w := Nat.pow_le_pow_right (by decide) hm
  have hmask : (BitVec.ofNat w (2 ^ m - 1)).toNat = 2 ^ m - 1 := by
    rw [BitVec.toNat_ofNat]
    exact Nat.mod_eq_of_lt (by omega)
  rw [BitVec.toNat_setWidth, BitVec.toNat_and, hmask, Nat.and_two_pow_sub_one_eq_mod,
    BitVec.toNat_ushiftRight, BitVec.extractLsb'_toNat, Nat.mod_mod]

lemma toInt_of_nonneg {w : ℕ} {a : BitVec w} (h : 0 ≤ a.toInt) : a.toInt = a.toNat := by
  have hlt := a.isLt
  rw [BitVec.toInt_eq_toNat_cond] at h ⊢
  split_ifs at h ⊢ <;> omega

end TinuOS.Library
