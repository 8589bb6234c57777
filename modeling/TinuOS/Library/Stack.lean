import TinuOS.Library.Memory

/-! A stack of 32-bit words that grows down in memory. -/

namespace TinuOS.Library

open Mem

def Top (m : Mem) (sp : Addr) : List (BitVec 32) → Prop
  | [] => True
  | w :: ws => m.load32 sp = w ∧ Top m (sp + 4#32) ws

variable {m m' : Mem} {sp : Addr} {v w : BitVec 32} {ws : List (BitVec 32)}

lemma Top.congr (h : Top m sp ws) (ha : Agree m' m (span sp (4 * ws.length)))
    (hl : 4 * ws.length ≤ 2 ^ 32) : Top m' sp ws := by
  induction ws generalizing sp with
  | nil => trivial
  | cons w ws ih =>
    rw [List.length_cons] at ha hl
    refine ⟨(load32_congr (ha.mono (span_subset ?_))).trans h.1, ih h.2 (ha.mono ?_) (by omega)⟩
    · rw [BitVec.sub_self, BitVec.toNat_zero]
      omega
    · apply span_subset
      have h4 : sp + 4#32 - sp = 4#32 := by bv_omega
      rw [h4, BitVec.toNat_ofNat]
      omega

lemma Top.push (h : Top m sp ws) (hl : 4 * (ws.length + 1) ≤ 2 ^ 32) :
    Top (m.store32 (sp - 4#32) v) (sp - 4#32) (v :: ws) := by
  refine ⟨load32_store32 v, ?_⟩
  rw [BitVec.sub_add_cancel]
  refine h.congr ?_ (by omega)
  intro x hx
  apply store32_of_le
  rw [mem_span] at hx
  bv_omega

lemma Top.load (h : Top m sp ws) {i : ℕ} (hi : i < ws.length) :
    m.load32 (sp + BitVec.ofNat 32 (4 * i)) = ws[i] := by
  induction ws generalizing sp i with
  | nil => exact absurd hi (Nat.not_lt_zero i)
  | cons w ws ih =>
    cases i with
    | zero =>
      rw [Nat.mul_zero, BitVec.add_zero]
      exact h.1
    | succ i =>
      have ha : sp + BitVec.ofNat 32 (4 * (i + 1)) = sp + 4#32 + BitVec.ofNat 32 (4 * i) := by
        bv_omega
      rw [ha]
      exact ih h.2 (Nat.lt_of_succ_lt_succ hi)

end TinuOS.Library
