import Mathlib

/-! Numerals of a fixed number of digits, and those without leading zeros. -/

namespace TinuOS.Library

def lowDigits (b : ℕ) : ℕ → ℕ → List Char
  | 0, _ => []
  | k + 1, n => lowDigits b k (n / b) ++ [Nat.digitChar (n % b)]

variable {b c k n : ℕ}

@[simp] lemma lowDigits_length : (lowDigits b k n).length = k := by
  induction k generalizing n with
  | zero => rfl
  | succ k ih => rw [lowDigits, List.length_append, ih, List.length_singleton]

lemma lowDigits_zero : lowDigits b k 0 = List.replicate k '0' := by
  induction k with
  | zero => rfl
  | succ k ih =>
    rw [lowDigits, Nat.zero_div, Nat.zero_mod, ih, List.replicate_succ']
    rfl

lemma lowDigits_succ : lowDigits b (k + 1) n = Nat.digitChar (n / b ^ k % b) :: lowDigits b k n := by
  induction k generalizing n with
  | zero => simp [lowDigits]
  | succ k ih =>
    rw [lowDigits, ih, Nat.div_div_eq_div_mul, ← pow_succ', List.cons_append]
    rfl

lemma lowDigits_eq_toDigits (hb : 1 < b) (hk : 0 < k) (hn : n < b ^ k) : lowDigits b k n =
    List.replicate (k - (Nat.toDigits b n).length) '0' ++ Nat.toDigits b n := by
  induction k generalizing n with
  | zero => omega
  | succ k ih =>
    rw [lowDigits]
    by_cases hlt : n < b
    · rw [Nat.toDigits_of_lt_base hlt, Nat.div_eq_of_lt hlt, Nat.mod_eq_of_lt hlt, lowDigits_zero,
        List.length_singleton, Nat.add_sub_cancel]
    · have hle : b ≤ n := Nat.le_of_not_lt hlt
      have hk' : 0 < k := by
        by_contra h0
        obtain rfl : k = 0 := by omega
        rw [pow_one] at hn
        omega
      have hdiv : n / b < b ^ k := Nat.div_lt_of_lt_mul (by rwa [← pow_succ'])
      rw [ih hk' hdiv, Nat.toDigits_of_base_le hb hle, List.length_append, List.length_singleton,
        Nat.add_sub_add_right, List.append_assoc]

lemma lowDigits_length_toDigits (hb : 1 < b) (n : ℕ) :
    lowDigits b (Nat.toDigits b n).length n = Nat.toDigits b n := by
  have hpos : 0 < (Nat.toDigits b n).length := Nat.length_toDigits_pos
  have hn : n < b ^ (Nat.toDigits b n).length := (Nat.length_toDigits_le_iff hb hpos).mp le_rfl
  rw [lowDigits_eq_toDigits hb hpos hn, Nat.sub_self]
  rfl

lemma length_toDigits_eq (hb : 1 < b) (hk : 0 < k) (hn : n < b ^ k)
    (hleast : ∀ i, 0 < i → i < k → b ^ i ≤ n) : (Nat.toDigits b n).length = k := by
  have hle := (Nat.length_toDigits_le_iff hb hk).mpr hn
  refine le_antisymm hle (Nat.le_of_not_lt fun hlt => ?_)
  have hpos : 0 < (Nat.toDigits b n).length := Nat.length_toDigits_pos
  have hn' : n < b ^ (Nat.toDigits b n).length := (Nat.length_toDigits_le_iff hb hpos).mp le_rfl
  exact absurd hn' (not_lt.mpr (hleast _ hpos hlt))

lemma toDigits_append_lowDigits (hb : 1 < b) (hc : 0 < c) (hn : n < b ^ k) :
    Nat.toDigits b (c * b ^ k + n) = Nat.toDigits b c ++ lowDigits b k n := by
  induction k generalizing n with
  | zero =>
    obtain rfl : n = 0 := by simpa using hn
    rw [pow_zero, Nat.mul_one, lowDigits, List.append_nil, Nat.add_zero]
  | succ k ih =>
    have hdiv : n / b < b ^ k := Nat.div_lt_of_lt_mul (by rwa [← pow_succ'])
    have hpos : 0 < b := by omega
    have hsum : c * b ^ (k + 1) + n = b * (c * b ^ k + n / b) + n % b := by
      rw [Nat.mul_add, Nat.add_assoc, Nat.div_add_mod, pow_succ]
      ring
    have hpos' : 0 < c * b ^ k + n / b := Nat.add_pos_left (Nat.mul_pos hc (Nat.pow_pos hpos)) _
    rw [hsum, ← Nat.toDigits_append_toDigits hb hpos' (Nat.mod_lt n hpos), ih hdiv,
      Nat.toDigits_of_lt_base (Nat.mod_lt n hpos), List.append_assoc, lowDigits]

end TinuOS.Library
