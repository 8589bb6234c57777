import TinuOS.Library.Memory

/-! Bytes copied one after the other from the lowest on, where the regions may overlap. -/

namespace TinuOS.Library

namespace Mem

/-- The memory after `n` bytes: those that were written before they were read repeat. -/
def copied (m : Mem) (dest src : Addr) (n : ℕ) : Mem where
  byte x :=
    if (x - dest).toNat < n then m.byte (src + BitVec.ofNat 32 ((x - dest).toNat % (dest - src).toNat))
    else m.byte x

end Mem

open Mem

variable {m : Mem} {dest src x : Addr} {n i : ℕ}

@[simp] lemma copied_zero : m.copied dest src 0 = m := by
  apply Mem.ext
  funext x
  simp [copied]

lemma copied_byte (hi : i < n) (hn : i < 2 ^ 32) : (m.copied dest src n).byte (dest + BitVec.ofNat 32 i) =
    m.byte (src + BitVec.ofNat 32 (i % (dest - src).toNat)) := by
  have hx : (dest + BitVec.ofNat 32 i - dest).toNat = i := by bv_omega
  simp only [copied, hx, if_pos hi]

lemma copied_frame (h : n ≤ (x - dest).toNat) : (m.copied dest src n).byte x = m.byte x :=
  if_neg (Nat.not_lt.mpr h)

lemma copied_source (hn : n < 2 ^ 32) : (m.copied dest src n).byte (src + BitVec.ofNat 32 n) =
    m.byte (src + BitVec.ofNat 32 (n % (dest - src).toNat)) := by
  rcases Nat.lt_or_ge n (dest - src).toNat with h | h
  · rw [Nat.mod_eq_of_lt h]
    apply copied_frame
    bv_omega
  · have hx : src + BitVec.ofNat 32 n = dest + BitVec.ofNat 32 (n - (dest - src).toNat) := by bv_omega
    rw [Nat.mod_eq_sub_mod h, hx]
    by_cases h0 : (dest - src).toNat = 0
    · have hd : dest = src := by bv_omega
      rw [h0, Nat.sub_zero, Nat.mod_zero, copied_frame (by bv_omega), hd]
    · exact copied_byte (by omega) (by omega)

lemma copied_succ (hn : n < 2 ^ 32) : (m.copied dest src n).store8 (dest + BitVec.ofNat 32 n)
    ((m.copied dest src n).byte (src + BitVec.ofNat 32 n)) = m.copied dest src (n + 1) := by
  rw [copied_source hn]
  apply Mem.ext
  funext x
  have hx : x = dest + BitVec.ofNat 32 n ↔ (x - dest).toNat = n := by
    constructor <;> intro h <;> bv_omega
  by_cases hxn : (x - dest).toNat = n
  · have hlt : (x - dest).toNat < n + 1 := by omega
    simp only [store8, copied, hx, if_pos hxn, if_pos hlt]
    rw [hxn]
  · have hiff : (x - dest).toNat < n + 1 ↔ (x - dest).toNat < n := by omega
    simp only [store8, copied, hx, if_neg hxn, hiff]

lemma copied_faithful_iff (hn : n ≤ 2 ^ 32) :
    (∀ m : Mem, ∀ i < n, (m.copied dest src n).byte (dest + BitVec.ofNat 32 i) =
      m.byte (src + BitVec.ofNat 32 i)) ↔ dest = src ∨ n ≤ (dest - src).toNat := by
  constructor
  · intro h
    by_contra hnot
    obtain ⟨hne, hlt⟩ := not_or.mp hnot
    -- a memory that differs between the first byte and its repetition
    have hk := h ⟨fun x => if x = src then 1 else 0⟩ (dest - src).toNat (by omega)
    rw [copied_byte (by omega) (by bv_omega), Nat.mod_self] at hk
    have hsrc : src + BitVec.ofNat 32 0 = src := BitVec.add_zero src
    have hdest : src + BitVec.ofNat 32 (dest - src).toNat ≠ src := by bv_omega
    simp only [hsrc, if_true, if_neg hdest] at hk
    exact absurd hk (by decide)
  · rintro (rfl | h) m i hi
    · rw [copied_byte hi (by omega), BitVec.sub_self, BitVec.toNat_zero, Nat.mod_zero]
    · rw [copied_byte hi (by omega), Nat.mod_eq_of_lt (by omega)]

end TinuOS.Library
