import TinuOS.Monitor.Kprintf
import TinuOS.Printk.Decimal

/-! The number that `itoa` leaves in its buffer, and the cells that it stores to. -/

namespace TinuOS.Monitor

open Library Printk Out

def signed (z : ℤ) : List Char8 :=
  if z < 0 then ch '-' :: numeral 10 z.natAbs else numeral 10 z.natAbs

def numberText (base : Char8) (d : BitVec 32) : List Char8 :=
  if base = ch 'd' then signed d.toInt
  else if base = ch 'x' then numeral 16 d.toNat
  else numeral 10 d.toNat

variable {base : Char8} {d ud : BitVec 32} {buf p : Out Char8} {b n : ℕ}

lemma itoaDigit_eq (base : Char8) (ud : BitVec 32) :
    itoaDigit (ud % divisor base) = ch (Nat.digitChar (ud.toNat % (divisor base).toNat)) := by
  have hlt : ud.toNat % (divisor base).toNat < 16 := by
    refine (Nat.mod_lt _ (Nat.zero_lt_of_lt (one_lt_divisor base))).trans_le ?_
    rw [divisor]
    split <;> decide
  have hr : ud % divisor base = BitVec.ofNat 32 (ud.toNat % (divisor base).toNat) := by
    rw [← BitVec.toNat_umod, BitVec.ofNat_toNat, BitVec.setWidth_eq]
  rw [hr]
  generalize ud.toNat % (divisor base).toNat = r at hlt
  revert r
  decide

lemma itoaDigits_wrote :
    p.Wrote (itoaDigits base ud p) (numeral (divisor base).toNat ud.toNat).reverse := by
  have hb := one_lt_divisor base
  fun_induction itoaDigits base ud p with
  | case1 ud p p' ud' h ih =>
    have hle : (divisor base).toNat ≤ ud.toNat := by
      by_contra hlt
      apply h
      apply BitVec.eq_of_toNat_eq
      rw [BitVec.toNat_udiv, Nat.div_eq_of_lt (not_le.mp hlt)]
      rfl
    rw [numeral, Nat.toDigits_of_base_le hb hle, List.map_append, List.map_singleton,
      List.reverse_append, List.reverse_singleton, ← itoaDigit_eq base ud]
    rw [BitVec.toNat_udiv] at ih
    exact wrote_put.trans ih
  | case2 ud p p' ud' h =>
    have hlt : ud.toNat < (divisor base).toNat := by
      have h0 := congrArg BitVec.toNat (not_not.mp h)
      rw [BitVec.toNat_udiv] at h0
      exact (Nat.div_eq_zero_iff.mp h0).resolve_left (by omega)
    have hmod := itoaDigit_eq base ud
    rw [Nat.mod_eq_of_lt hlt] at hmod
    rw [numeral, Nat.toDigits_of_lt_base hlt, List.map_singleton, List.reverse_singleton, ← hmod]
    exact wrote_put

lemma mem_numeral {c : Char8} (hb : 1 < b) (hb' : b ≤ 16) (h : c ∈ numeral b n) :
    ∃ d < 16, c = ch (Nat.digitChar d) := by
  induction n using Nat.strongRecOn with
  | ind n ih =>
    by_cases hlt : n < b
    · rw [numeral, Nat.toDigits_of_lt_base hlt, List.map_singleton, List.mem_singleton] at h
      exact ⟨n, by omega, h⟩
    · have hle := not_lt.mp hlt
      rw [numeral, Nat.toDigits_of_base_le hb hle, List.map_append, List.mem_append,
        List.map_singleton, List.mem_singleton] at h
      rcases h with h | h
      · exact ih _ (Nat.div_lt_self (by omega) hb) h
      · exact ⟨n % b, (Nat.mod_lt n (by omega)).trans_le hb', h⟩

lemma numeral_ne_zero (hb : 1 < b) (hb' : b ≤ 16) : (0 : Char8) ∉ numeral b n := by
  intro h
  obtain ⟨d, hd, h0⟩ := mem_numeral hb hb' h
  have hne : ∀ d < 16, (0 : Char8) ≠ ch (Nat.digitChar d) := by decide
  exact hne d hd h0

lemma divisor_le (base : Char8) : (divisor base).toNat ≤ 16 := by
  rw [divisor]
  split <;> decide

lemma itoaUnsigned_stringAt (buf : Out Char8) (base : Char8) (ud : BitVec 32) :
    StringAt 0 (itoaUnsigned buf base ud).cells buf.ptr (numeral (divisor base).toNat ud.toNat) := by
  have hne : (numeral (divisor base).toNat ud.toNat).reverse ≠ [] := by
    rw [ne_eq, List.reverse_eq_nil_iff, ← List.length_eq_zero_iff]
    exact (numeral_length_pos _ _).ne'
  have h0 : 0 ∉ (numeral (divisor base).toNat ud.toNat).reverse := by
    rw [List.mem_reverse]
    exact numeral_ne_zero (one_lt_divisor base) (divisor_le base)
  have h := (itoaDigits_wrote (p := buf)).stringAt_reverse hne h0
  rwa [List.reverse_reverse] at h

lemma itoaUnsigned_before (h : n < buf.ptr) : (itoaUnsigned buf base ud).cells n = buf.cells n := by
  have hw : buf.Wrote (itoaDigits base ud buf) _ := itoaDigits_wrote
  have hp := hw.ptr
  rw [itoaUnsigned, reverse_outside (Or.inl h)]
  exact (Function.update_of_ne (by omega) _ _).trans (hw.frame n (Or.inl h))

lemma numeral_length_ten (base : Char8) (ud : BitVec 32) :
    (numeral (divisor base).toNat ud.toNat).length ≤ 10 := by
  have hlt := ud.isLt
  rw [numeral_length_le (one_lt_divisor base) (by decide)]
  rw [divisor]
  split
  · exact hlt.trans_le (by decide)
  · exact hlt.trans_le (by decide)

lemma itoaUnsigned_stores (h : n ∈ (itoaUnsigned buf base ud).stores) :
    n ∈ buf.stores ∨ buf.ptr ≤ n ∧ n ≤ buf.ptr + 10 := by
  have hlen := numeral_length_ten base ud
  rcases itoaDigits_wrote.stores_reverse h with hn | hn
  · exact Or.inl hn
  · rw [List.length_reverse] at hn
    exact Or.inr (by omega)

lemma natAbs_toInt_neg (h : d.slt 0) : (-d).toNat = d.toInt.natAbs := by
  have hd := d.isLt
  have hneg : d.toInt < 0 := BitVec.slt_iff_toInt_lt.mp h
  rw [BitVec.toInt_eq_toNat_cond] at hneg ⊢
  rw [BitVec.toNat_neg]
  split_ifs at hneg ⊢ with hs
  · omega
  · rw [Nat.mod_eq_of_lt (by omega)]
    omega

lemma natAbs_toInt (h : ¬ d.toInt < 0) : d.toNat = d.toInt.natAbs := by
  rw [toInt_of_nonneg (Int.not_lt.mp h)]
  exact (Int.natAbs_natCast d.toNat).symm

lemma itoa_stringAt (buf : Out Char8) (base : Char8) (d : BitVec 32) :
    StringAt 0 (itoa buf base d).cells buf.ptr (numberText base d) := by
  rw [itoa, numberText]
  by_cases hb : base = ch 'd'
  · have hdiv : (divisor base).toNat = 10 := by rw [hb]; rfl
    rw [if_pos hb, signed]
    by_cases hs : d.slt 0
    · have hneg : d.toInt < 0 := BitVec.slt_iff_toInt_lt.mp hs
      have h := itoaUnsigned_stringAt (buf.put (ch '-')) base (-d)
      rw [hdiv, natAbs_toInt_neg hs] at h
      rw [if_pos ⟨hb, hs⟩, if_pos hneg]
      refine ⟨(itoaUnsigned_before (Nat.lt_succ_self _)).trans ?_, by decide, h⟩
      exact Function.update_self _ _ _
    · have hpos : ¬ d.toInt < 0 := fun h => hs (BitVec.slt_iff_toInt_lt.mpr h)
      have h := itoaUnsigned_stringAt buf base d
      rw [hdiv, natAbs_toInt hpos] at h
      rw [if_neg fun h => hs h.2, if_neg hpos]
      exact h
  · have h := itoaUnsigned_stringAt buf base d
    rw [if_neg fun h => hb h.1, if_neg hb]
    rw [divisor] at h
    split_ifs at h ⊢
    · exact h
    · exact h

lemma itoa_stores (h : n ∈ (itoa buf base d).stores) :
    n ∈ buf.stores ∨ buf.ptr ≤ n ∧ n < buf.ptr + 12 := by
  rw [itoa] at h
  split_ifs at h
  · rcases itoaUnsigned_stores h with hn | hn
    · rcases (wrote_put.stores n).mp hn with hn | hn
      · exact Or.inl hn
      · rw [List.length_singleton] at hn
        exact Or.inr (by omega)
    · have hp : (buf.put (ch '-')).ptr = buf.ptr + 1 := rfl
      exact Or.inr (by omega)
  · exact (itoaUnsigned_stores h).imp_right fun hn => by omega

end TinuOS.Monitor
