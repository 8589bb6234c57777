import TinuOS.Umalloc.Model

/-! Rounding of requests. Up to `2 ^ 31` the detour over a single-precision number gives the
least power of two, whichever way the conversion rounds. -/

namespace TinuOS.Umalloc

open Library

lemma floatExponent_cases {v : ℕ} (h : v ≠ 0) :
    floatExponent v - 0x7f = v.log2 ∨
      (floatExponent v - 0x7f = v.log2 + 1 ∧ 2 ^ v.log2 < v) := by
  have hf : floatExponent v - 0x7f = (roundEven 24 v).log2 := by simp [floatExponent, toFloat]
  rw [hf]
  exact log2_roundEven (by omega) h

lemma one_shiftLeft_toNat {k : ℕ} (h : k < 32) : (1#32 <<< k).toNat = 2 ^ k := by
  have hk : 2 ^ k < 2 ^ 32 := Nat.pow_lt_pow_right (by omega) h
  rw [BitVec.toNat_shiftLeft, Nat.shiftLeft_eq]
  simpa using Nat.mod_eq_of_lt hk

lemma clog_of_lt {v : ℕ} (h : 2 ^ v.log2 < v) : Nat.clog 2 v = v.log2 + 1 := by
  have hhigh : v < 2 ^ (v.log2 + 1) := Nat.lt_log2_self
  apply le_antisymm
  · exact Nat.clog_le_of_le_pow hhigh.le
  · exact (Nat.lt_clog_iff_pow_lt (by omega)).mpr h

lemma clog_of_le {v : ℕ} (h0 : v ≠ 0) (h : v ≤ 2 ^ v.log2) : Nat.clog 2 v = v.log2 := by
  apply le_antisymm (Nat.clog_le_of_le_pow h)
  apply (Nat.pow_le_pow_iff_right (by omega : 1 < 2)).mp
  exact (Nat.log2_self_le h0).trans (Nat.le_pow_clog (by omega) v)

lemma nextPowerOfTwo_toNat {v : BitVec 32} (h : v ≤ 0x80000000#32) :
    (nextPowerOfTwo v).toNat = 2 ^ Nat.clog 2 v.toNat := by
  have h : v.toNat ≤ 2 ^ 31 := by bv_omega
  by_cases h1 : 1 < v
  · have hv : 1 < v.toNat := h1
    have hne : v.toNat ≠ 0 := by omega
    have hlog : v.toNat.log2 ≤ 31 :=
      (Nat.pow_le_pow_iff_right (by omega)).mp ((Nat.log2_self_le hne).trans h)
    have hlog' : 2 ^ v.toNat.log2 < v.toNat → v.toNat.log2 < 31 := fun hlt =>
      (Nat.pow_lt_pow_iff_right (by omega)).mp (hlt.trans_le h)
    simp only [nextPowerOfTwo, if_pos h1]
    rcases floatExponent_cases hne with he | ⟨he, hlt⟩
    · rw [he, Nat.mod_eq_of_lt (by omega)]
      by_cases ht : 1#32 <<< v.toNat.log2 < v
      · have hlt : 2 ^ v.toNat.log2 < v.toNat := by
          rwa [BitVec.lt_def, one_shiftLeft_toNat (by omega)] at ht
        have hs := hlog' hlt
        rw [if_pos ht, ← BitVec.shiftLeft_add, one_shiftLeft_toNat (by omega), clog_of_lt hlt]
      · have hle : v.toNat ≤ 2 ^ v.toNat.log2 := by
          rwa [BitVec.lt_def, one_shiftLeft_toNat (by omega), not_lt] at ht
        rw [if_neg ht, BitVec.shiftLeft_zero, one_shiftLeft_toNat (by omega), clog_of_le hne hle]
    · -- the conversion has rounded up to the next power of two already
      have hs := hlog' hlt
      have ht : ¬ 1#32 <<< (v.toNat.log2 + 1) < v := by
        have hhigh : v.toNat < 2 ^ (v.toNat.log2 + 1) := Nat.lt_log2_self
        rw [BitVec.lt_def, one_shiftLeft_toNat (by omega)]
        omega
      rw [he, Nat.mod_eq_of_lt (by omega), if_neg ht, BitVec.shiftLeft_zero,
        one_shiftLeft_toNat (by omega), clog_of_lt hlt]
  · have hv : v.toNat ≤ 1 := by
      rw [BitVec.lt_def] at h1
      simpa using h1
    rw [nextPowerOfTwo, if_neg h1, Nat.clog_of_right_le_one hv]
    rfl

theorem nextPowerOfTwo_isLeast {v : BitVec 32} (h : v ≤ 0x80000000#32) :
    IsLeast {p : ℕ | (∃ k, p = 2 ^ k) ∧ v.toNat ≤ p} (nextPowerOfTwo v).toNat := by
  rw [nextPowerOfTwo_toNat h]
  refine ⟨⟨⟨_, rfl⟩, Nat.le_pow_clog (by omega) _⟩, ?_⟩
  rintro _ ⟨⟨k, rfl⟩, hk⟩
  exact Nat.pow_le_pow_right (by omega) (Nat.clog_le_of_le_pow hk)

theorem nextPowerOfTwo_isLeast_rounded_up :
    IsLeast {p : ℕ | (∃ k, p = 2 ^ k) ∧ (0x1FFFFFF#32).toNat ≤ p} (nextPowerOfTwo 0x1FFFFFF).toNat :=
  nextPowerOfTwo_isLeast (by decide)

lemma nextPowerOfTwo_le (v : BitVec 32) : nextPowerOfTwo v ≤ 0x80000000#32 := by
  have hshift : ∀ k < 32, ∀ b < 2, (1#32 <<< k) <<< b ≤ 0x80000000#32 := by decide
  have hk := Nat.mod_lt (floatExponent v.toNat - 0x7f) (by omega : 0 < 32)
  by_cases h1 : 1 < v
  · simp only [nextPowerOfTwo, if_pos h1]
    generalize (floatExponent v.toNat - 0x7f) % 32 = k at hk ⊢
    exact hshift k hk _ (by split_ifs <;> omega)
  · rw [nextPowerOfTwo, if_neg h1]
    decide

lemma totalSize_ne_zero (size : BitVec 32) : totalSize size ≠ 0 := by
  have := nextPowerOfTwo_le size
  rw [totalSize, sizeofHeader]
  bv_omega

lemma le_nextPowerOfTwo {v : BitVec 32} (h : v ≤ 0x80000000#32) :
    v.toNat ≤ (nextPowerOfTwo v).toNat ∧ (nextPowerOfTwo v).toNat ≤ 2 ^ 31 := by
  rw [nextPowerOfTwo_toNat h]
  have hv : v.toNat ≤ 2 ^ 31 := by bv_omega
  exact ⟨Nat.le_pow_clog (by omega) _, Nat.pow_le_pow_right (by omega) (Nat.clog_le_of_le_pow hv)⟩

lemma totalSize_toNat {size : BitVec 32} (h : size ≤ 0x80000000#32) :
    (totalSize size).toNat = (nextPowerOfTwo size).toNat + sizeofHeader := by
  have := (le_nextPowerOfTwo h).2
  rw [totalSize, sizeofHeader]
  bv_omega

lemma le_totalSize {size : BitVec 32} (h : size ≤ 0x80000000#32) :
    sizeofHeader + size.toNat ≤ (totalSize size).toNat := by
  have := (le_nextPowerOfTwo h).1
  rw [totalSize_toNat h]
  omega

end TinuOS.Umalloc
