import TinuOS.Rtc.Reading
import TinuOS.System.Model

/-! What `memcpy`, `memset` and `memcmp` do with regions, which may overlap. -/

namespace TinuOS.System

open Library Mem

variable {s t : List (BitVec 8)}

theorem memcpy_exact (dest src : Addr) (n : BitVec 32) :
    (∀ m, (memcpy m dest src n).1 = dest + n ∧
      (∀ i < n.toNat, (memcpy m dest src n).2.byte (dest + BitVec.ofNat 32 i) =
        m.byte (src + BitVec.ofNat 32 (i % (dest - src).toNat))) ∧
      Agree (memcpy m dest src n).2 m (span dest n.toNat)ᶜ) ∧
    ((∀ m, ∀ i < n.toNat, (memcpy m dest src n).2.byte (dest + BitVec.ofNat 32 i) =
        m.byte (src + BitVec.ofNat 32 i)) ↔ dest = src ∨ n ≤ dest - src) := by
  have hn := n.isLt
  constructor
  · intro m
    rw [memcpy_eq]
    refine ⟨rfl, fun i hi => copied_byte hi (by omega), fun x hx => ?_⟩
    exact copied_frame (Nat.not_lt.mp hx)
  · rw [BitVec.le_def, ← copied_faithful_iff (by omega)]
    simp only [memcpy_eq]

theorem memset_exact (m : Mem) (b : Addr) (val count : BitVec 32) :
    (memset m b val count).1 = b + count ∧
      (∀ x ∈ span b count.toNat, (memset m b val count).2.byte x = val.setWidth 8) ∧
      Agree (memset m b val count).2 m (span b count.toNat)ᶜ := by
  rw [memset_eq]
  exact ⟨rfl, fun x hx => fill_byte hx _, fill_agree _⟩

lemma memcmp_neg (s t : List (BitVec 8)) : Rtc.memcmp t s = - Rtc.memcmp s t := by
  induction s generalizing t with
  | nil => cases t <;> rfl
  | cons a s ih =>
    cases t with
    | nil => rfl
    | cons b t =>
      rw [Rtc.memcmp, Rtc.memcmp]
      by_cases hab : a = b
      · rw [if_neg (not_not.mpr hab.symm), if_neg (not_not.mpr hab)]
        exact ih t
      · rw [if_pos (Ne.symm hab), if_pos hab]
        omega

lemma memcmp_lt_iff (h : s.length = t.length) : Rtc.memcmp s t < 0 ↔ s < t := by
  induction s generalizing t with
  | nil =>
    obtain rfl := List.eq_nil_of_length_eq_zero h.symm
    exact iff_of_false (lt_irrefl 0) (List.not_lt_nil [])
  | cons a s ih =>
    cases t with
    | nil => exact absurd h (Nat.succ_ne_zero _)
    | cons b t =>
      rw [Rtc.memcmp, List.cons_lt_cons_iff]
      by_cases hab : a = b
      · rw [if_neg (not_not.mpr hab), ih (Nat.succ.inj h)]
        simp [hab]
      · rw [if_pos hab, BitVec.lt_def]
        simp only [hab, false_and, or_false]
        omega

lemma memcmp_natAbs_le (s t : List (BitVec 8)) : (Rtc.memcmp s t).natAbs ≤ 255 := by
  induction s generalizing t with
  | nil => exact Nat.zero_le _
  | cons a s ih =>
    cases t with
    | nil => exact Nat.zero_le _
    | cons b t =>
      rw [Rtc.memcmp]
      split_ifs
      · have ha := a.isLt
        have hb := b.isLt
        omega
      · exact ih t

lemma length_bytes (m : Mem) (a : Addr) (n : ℕ) : (bytes m a n).length = n := by
  induction n generalizing a with
  | zero => rfl
  | succ n ih => rw [bytes, List.length_cons, ih]

theorem memcmp_lexicographic (m : Mem) (s1 s2 : Addr) (n : BitVec 32) :
    (memcmp m s1 s2 n = 0 ↔ bytes m s1 n.toNat = bytes m s2 n.toNat) ∧
    (memcmp m s1 s2 n < 0 ↔ bytes m s1 n.toNat < bytes m s2 n.toNat) ∧
    memcmp m s2 s1 n = - memcmp m s1 s2 n ∧ (memcmp m s1 s2 n).natAbs ≤ 255 := by
  have hlen : (bytes m s1 n.toNat).length = (bytes m s2 n.toNat).length := by
    rw [length_bytes, length_bytes]
  simp only [memcmp, memcmpLoop_eq]
  exact ⟨Rtc.memcmp_eq_zero_iff hlen, memcmp_lt_iff hlen, memcmp_neg _ _, memcmp_natAbs_le _ _⟩

end TinuOS.System
