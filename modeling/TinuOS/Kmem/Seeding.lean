import TinuOS.Kmem.Session

/-! The pages that `kinit1` seeds the free list with, and the ranges for which they are right. -/

namespace TinuOS.Kmem

open Library

variable {vstart vend p : Addr} {σ : Machine} {n : ℕ}

lemma pgRoundUp_toNat (h : vstart ≤ 0xFFFFF000#32) :
    (pgRoundUp vstart).toNat = (vstart.toNat + 4095) / 4096 * 4096 := by
  have hadd : (vstart + BitVec.ofNat 32 pageSize - 1).toNat = vstart.toNat + 4095 := by
    rw [pageSize]
    bv_omega
  have hmask : ~~~(BitVec.ofNat 32 pageSize - 1) = 0xFFFFF000#32 := by decide
  rw [pgRoundUp, hmask, and_pageMask_toNat, hadd]

lemma add_pages_toNat {i : ℕ} (h : p.toNat + i * 4096 < 2 ^ 32) :
    (p + BitVec.ofNat 32 (i * 4096)).toNat = p.toNat + i * 4096 := by
  bv_omega

lemma seeded_whole (h : vstart ≤ 0xFFFFE000#32) (p : Addr) :
    p ∈ pagesFrom (pgRoundUp vstart) ((vend.toNat - (pgRoundUp vstart).toNat) / 4096) ↔
      Whole vstart vend p := by
  have hs := pgRoundUp_toNat (by bv_omega : vstart ≤ 0xFFFFF000#32)
  rw [mem_pagesFrom, Whole, PageAligned, pageSize, BitVec.le_def]
  constructor
  · rintro ⟨i, hi, rfl⟩
    rw [add_pages_toNat (by omega)]
    bv_omega
  · rintro ⟨ha, hle, hend⟩
    refine ⟨(p.toNat - (pgRoundUp vstart).toNat) / 4096, by omega, ?_⟩
    apply BitVec.eq_of_toNat_eq
    rw [add_pages_toNat (by omega)]
    omega

lemma kinit1_seeded (hv : vend < 0xFFFFF000#32) (h : vstart ≤ 0xFFFFE000#32)
    (hn : n = (vend.toNat - (pgRoundUp vstart).toNat) / 4096) :
    kinit1 (n + 1) σ vstart vend = some ((pagesFrom (pgRoundUp vstart) n).foldl kfree σ) := by
  have hs := pgRoundUp_toNat (by bv_omega : vstart ≤ 0xFFFFF000#32)
  apply freerange_eq
  · intro q hq
    have hw := ((seeded_whole h q).mp (hn ▸ hq)).2.2
    rw [pageSize] at hw ⊢
    bv_omega
  · have hadd := add_pages_toNat (p := pgRoundUp vstart) (i := n) (by omega)
    rw [pageSize]
    bv_omega

lemma kinit1_wrapped (hle : vstart ≤ vend) (hv : vend < 0xFFFFF000#32) (h : 0xFFFFE000#32 < vstart) :
    kinit1 (0xFFFFF + 1) σ vstart vend = some ((pagesFrom 0xFFFFF000#32 0xFFFFF).foldl kfree σ) := by
  have hs : pgRoundUp vstart = 0xFFFFF000#32 := by
    apply BitVec.eq_of_toNat_eq
    rw [pgRoundUp_toNat (by bv_omega)]
    bv_omega
  rw [kinit1, hs]
  apply freerange_eq
  · intro q hq
    obtain ⟨i, hi, rfl⟩ := mem_pagesFrom.mp hq
    rw [pageSize]
    bv_omega
  · rw [pageSize]
    bv_omega

lemma managed_of_le (h0 : 0 < vstart) (hv : vend < 0xFFFFF000#32) (h : vstart ≤ 0xFFFFE000#32) :
    Managed vstart vend := by
  intro σ hσ
  have hw : ∀ p, _ ↔ Whole vstart vend p := seeded_whole h
  have hnd : (pagesFrom (pgRoundUp vstart)
      ((vend.toNat - (pgRoundUp vstart).toNat) / 4096)).Nodup := pagesFrom_nodup (by bv_omega)
  have hne : ∀ p, Whole vstart vend p → p ≠ 0 := by
    rintro p ⟨-, hp, -⟩
    bv_omega
  refine ⟨_, _, kinit1_seeded hv h rfl, fun ops s hr => ?_⟩
  refine Split.sound hw hnd (hr.invariant (fun s o s' hs ho =>
    hs.step (fun p hp => ((hw p).mp hp).1) (fun p hp => hne p ((hw p).mp hp)) hnd ho) ?_)
  have hfree : σ.Free [] := ⟨hσ, by simp⟩
  exact ⟨_, foldl_kfree_free hfree (fun p hp => ⟨((hw p).mp hp).1, hne p ((hw p).mp hp)⟩)
    (by simpa using hnd), by simp⟩

lemma not_managed_of_lt (hle : vstart ≤ vend) (hv : vend < 0xFFFFF000#32)
    (h : 0xFFFFE000#32 < vstart) : ¬ Managed vstart vend := by
  intro hm
  obtain ⟨fuel, σ', he, hs⟩ := hm ⟨⟨fun _ => 0⟩, 0, []⟩ rfl
  have hl : σ'.freelist = 0xFFFFD000#32 := by
    have hfuel := freerange_mono he (Nat.le_max_left fuel (0xFFFFF + 1))
    have hwrap := freerange_mono (kinit1_wrapped (σ := ⟨⟨fun _ => 0⟩, 0, []⟩) hle hv h)
      (Nat.le_max_right fuel (0xFFFFF + 1))
    rw [Option.some.inj (hfuel.symm.trans hwrap), foldl_kfree_freelist]
    decide
  have hf := ((hs [] _ (.nil _)).fresh (by rw [kalloc_ret, hl]; decide)).1.2.1
  rw [kalloc_ret, hl] at hf
  bv_omega

theorem managed_iff (h0 : 0 < vstart) (hle : vstart ≤ vend) (hv : vend < 0xFFFFF000#32) :
    Managed vstart vend ↔ vstart ≤ 0xFFFFE000#32 := by
  constructor
  · intro hm
    by_contra h
    exact not_managed_of_lt hle hv (BitVec.not_le.mp h) hm
  · exact managed_of_le h0 hv

theorem managed_kernel : Managed 0x80120000#32 0x80400000#32 :=
  (managed_iff (by decide) (by decide) (by decide)).mpr (by decide)

theorem wrapped_range_unmanaged : ¬ ∀ vstart vend : Addr, 0 < vstart → vstart ≤ vend →
    vend < 0xFFFFF000#32 → Managed vstart vend := by
  intro h
  exact not_managed_of_lt (BitVec.le_refl _) (by decide) (by decide)
    (h 0xFFFFE001#32 0xFFFFE001#32 (by decide) (by decide) (by decide))

end TinuOS.Kmem
