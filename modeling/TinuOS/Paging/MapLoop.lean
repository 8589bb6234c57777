import TinuOS.Paging.Tables

/-! The turns of the loop in `mappages`. -/

namespace TinuOS.Paging

open Library Mem Kmem

variable {σ σ' : Machine} {pgdir start stop stray pa : Addr} {perm : BitVec 32} {ps : List Addr}
  {fuel k : ℕ} {r : BitVec 32}

lemma mapLoop_fail (hf : (pagewalk σ pgdir start 1).1 = 0) :
    mapLoop stray (fuel + 1) σ pgdir start stop pa perm =
      some (-1, { (pagewalk σ pgdir start 1).2 with
        mem := (pagewalk σ pgdir start 1).2.mem.store32 stray 1 }) := by
  have h1 : (1 : BitVec 32) ≠ 0 := by decide
  simp only [mapLoop, if_pos hf, if_pos h1]

def mapped (stray : Addr) (σ : Machine) (pgdir start pa : Addr) (perm : BitVec 32) : Machine :=
  { (pagewalk σ pgdir start 1).2 with
    mem := ((pagewalk σ pgdir start 1).2.mem.store32 stray 0).store32 stray (pa ||| perm ||| pteP) }

lemma mapLoop_turn (hf : (pagewalk σ pgdir start 1).1 ≠ 0) :
    mapLoop stray (fuel + 1) σ pgdir start stop pa perm =
      if start = stop then some (0, mapped stray σ pgdir start pa perm)
      else mapLoop stray fuel (mapped stray σ pgdir start pa perm) pgdir
        (start + BitVec.ofNat 32 pageSize) (stop + BitVec.ofNat 32 pageSize) pa perm := by
  have h0 : ¬ (0 : BitVec 32) ≠ 0 := by decide
  have hp : ¬ (0 : BitVec 32) &&& pteP ≠ 0 := by decide
  simp only [mapLoop, if_neg hf, if_neg h0, load32_store32, if_neg hp]
  rfl

lemma mapLoop_mono (h : mapLoop stray fuel σ pgdir start stop pa perm = some (r, σ')) (hk : fuel ≤ k) :
    mapLoop stray k σ pgdir start stop pa perm = some (r, σ') := by
  induction fuel generalizing σ start stop k with
  | zero => simp [mapLoop] at h
  | succ fuel ih =>
    obtain ⟨k, rfl⟩ : ∃ j, k = j + 1 := ⟨k - 1, by omega⟩
    by_cases hf : (pagewalk σ pgdir start 1).1 = 0
    · rw [mapLoop_fail hf] at h ⊢
      exact h
    · rw [mapLoop_turn hf] at h ⊢
      split_ifs at h ⊢
      · exact h
      · exact ih h (by omega)

end TinuOS.Paging
