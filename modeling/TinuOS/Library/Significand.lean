import Mathlib

/-! Rounding of a natural number to a given number of significant bits. -/

namespace TinuOS.Library

/-- The nearest number with `p` significant bits, ties to the even one. -/
def roundEven (p v : ℕ) : ℕ :=
  let ulp := 2 ^ (v.log2 + 1 - p)
  let q := v / ulp
  let r := v % ulp
  if ulp < 2 * r ∨ (2 * r = ulp ∧ q % 2 = 1) then (q + 1) * ulp else q * ulp

variable {p v : ℕ}

lemma roundEven_of_log2_lt (h : v.log2 < p) : roundEven p v = v := by
  simp [roundEven, Nat.sub_eq_zero_of_le h, Nat.mod_one]

lemma roundEven_bounds (hp : 0 < p) (h : v ≠ 0) :
    2 ^ v.log2 ≤ roundEven p v ∧ roundEven p v ≤ 2 ^ (v.log2 + 1) := by
  have hlow := Nat.log2_self_le h
  have hhigh : v < 2 ^ (v.log2 + 1) := Nat.lt_log2_self
  rcases Nat.lt_or_ge v.log2 p with he | he
  · rw [roundEven_of_log2_lt he]
    exact ⟨hlow, hhigh.le⟩
  · obtain ⟨k, hk⟩ := Nat.exists_eq_add_of_le (Nat.le_succ_of_le he)
    have hsub : v.log2 + 1 - p = k := by omega
    have hl : 2 ^ v.log2 = 2 ^ (p - 1) * 2 ^ k := by
      rw [← pow_add]
      congr 1
      omega
    have hh : 2 ^ (v.log2 + 1) = 2 * 2 ^ (p - 1) * 2 ^ k := by rw [pow_succ, hl]; ring
    have hq : 2 ^ (p - 1) ≤ v / 2 ^ k :=
      (Nat.le_div_iff_mul_le (Nat.two_pow_pos k)).mpr (hl ▸ hlow)
    have hq' : v / 2 ^ k < 2 * 2 ^ (p - 1) :=
      Nat.div_lt_of_lt_mul (by rw [mul_comm]; exact hh ▸ hhigh)
    rw [hl, hh]
    simp only [roundEven, hsub]
    split_ifs
    · exact ⟨Nat.mul_le_mul_right _ (by omega), Nat.mul_le_mul_right _ (by omega)⟩
    · exact ⟨Nat.mul_le_mul_right _ (by omega), Nat.mul_le_mul_right _ (by omega)⟩

lemma roundEven_two_pow (hp : 0 < p) (e : ℕ) : roundEven p (2 ^ e) = 2 ^ e := by
  rcases Nat.lt_or_ge e p with he | he
  · exact roundEven_of_log2_lt (by simpa using he)
  · obtain ⟨k, hk⟩ := Nat.exists_eq_add_of_le (Nat.le_succ_of_le he)
    have hsub : e + 1 - p = k := by omega
    have hpow : 2 ^ e = 2 ^ (p - 1) * 2 ^ k := by
      rw [← pow_add]
      congr 1
      omega
    have hd : 2 ^ e / 2 ^ k = 2 ^ (p - 1) := by rw [hpow, Nat.mul_div_cancel _ (Nat.two_pow_pos k)]
    have hr : 2 ^ e % 2 ^ k = 0 := by rw [hpow, Nat.mul_mod_left]
    have hpos := Nat.two_pow_pos k
    simp only [roundEven, Nat.log2_two_pow, hsub, hd, hr]
    rw [if_neg (by omega), hpow]

lemma log2_roundEven (hp : 0 < p) (h : v ≠ 0) : (roundEven p v).log2 = v.log2 ∨
    ((roundEven p v).log2 = v.log2 + 1 ∧ 2 ^ v.log2 < v) := by
  obtain ⟨hl, hh⟩ := roundEven_bounds hp h
  rcases Nat.lt_or_eq_of_le hh with hlt | heq
  · have hne : roundEven p v ≠ 0 := by
      have := Nat.two_pow_pos v.log2
      omega
    exact Or.inl ((Nat.log2_eq_iff hne).mpr ⟨hl, hlt⟩)
  · refine Or.inr ⟨by rw [heq, Nat.log2_two_pow], ?_⟩
    apply lt_of_le_of_ne (Nat.log2_self_le h)
    intro he
    rw [← he, roundEven_two_pow hp, Nat.log2_two_pow] at heq
    exact absurd (Nat.pow_right_injective (le_refl 2) heq) (by omega)

end TinuOS.Library
